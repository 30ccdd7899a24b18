import Wrongthink.Channels.Entries
import Wrongthink.Service.Serve

/-!
# Live order and stored order

A send appends its message to the live log of the channel and then inserts it, and holds no lock
from the one to the other. So two sends at the same time can be logged in one order and stored in
the other (`exists_reordering`). What always agrees, once no send is under way and if no insert has
failed, are the messages themselves: the log and the table have gained the same ones, in some
order; and the orders agree too if, on that channel, every append is followed by the insert of the
same send (`live_perm_stored`).
-/

namespace Wrongthink

open Concurrent WrongthinkServiceImpl

variable {b : Backend}

/-! ## The marks on one channel -/

/-- The marks on the channel `ch`, each with the thread that left it. -/
def marked {ι : Type} (ch : ℤ) (l : List (ι × Action b)) : List (ι × Mark) :=
  tagged (fun e ↦ (e.op.mark e.result).filter (Mark.on ch)) l

theorem map_snd_marked {ι : Type} (ch : ℤ) (l : List (ι × Action b)) :
    (marked ch l).map Prod.snd = (marks (l.map Prod.snd)).filter (Mark.on ch) := by
  rw [marked, map_snd_tagged, marks, List.filter_filterMap]

theorem view_marked {ι : Type} [DecidableEq ι] (ch : ℤ) (i : ι) (l : List (ι × Action b)) :
    view i (marked ch l) = (marks (view i l)).filter (Mark.on ch) := by
  rw [marked, view_tagged, marks, List.filter_filterMap]

theorem log_of_run {w w' : World b} {tr : List (Action b)} (h : Run Op.Step w tr w')
    (hindex : ∀ e ∈ tr, Indexed e.op e.before e.result e.after) (ch : ℤ) :
    w'.log ch = w.log ch ++ ((marks tr).filter (Mark.on ch)).filterMap Mark.appended? := by
  have hlog : w'.log ch = w.log ch ++ tr.flatMap fun e ↦
      ((e.op.mark e.result).filter (Mark.on ch)).toList.filterMap Mark.appended? :=
    h.log (f := fun v ↦ v.log ch) fun e he hs ↦ hs.log_eq (hindex e he) ch
  rw [hlog, marks, List.filter_filterMap, List.filterMap_eq_flatMap_toList (fun e ↦ _) tr,
    List.filterMap_flatMap]

/-- The rows of `ch` among those that the table gains are what is inserted there. -/
theorem stored_filter {stored : List MessageRow} {ks : List Mark}
    (h : stored.map MessageRow.bound = ks.filterMap Mark.inserted?) (ch : ℤ) :
    (stored.filter (·.channel = ch)).map MessageRow.bound =
      (ks.filter (Mark.on ch)).filterMap Mark.inserted? := by
  calc (stored.filter (·.channel = ch)).map MessageRow.bound
      = (stored.map MessageRow.bound).filter (·.channel = ch) := by
        rw [List.filter_map]
        rfl
    _ = (ks.filterMap Mark.inserted?).filter (·.channel = ch) := by rw [h]
    _ = (ks.filter (Mark.on ch)).filterMap Mark.inserted? := by
        rw [List.filter_filterMap, List.filterMap_filter]
        congr 1
        funext k
        cases k with
        | append id msg => simp [Mark.inserted?, Mark.on]
        | insert v => by_cases hv : v.channel = ch <;> simp [Mark.inserted?, Mark.on, hv]

/-! ## Runs of sends -/

section Runs

variable {ι : Type} [DecidableEq ι] {c c' : Pool ι Op Op.Result Exn Reply (World b)}
  {l : List (ι × Action b)}

/-- When no send is under way and no insert has failed, the marks of each send come in pairs. -/
theorem marks_view (hsend : ∀ i, ∃ r : Request, r.target = some .message ∧ c.thread i = r.handle)
    (h : Pool.Steps Op.Step c l c') (hinsert : ¬LostInsert (l.map Prod.snd))
    (hquiet : ∀ i, view i l = [] ∨ (c'.thread i).outcome ≠ none) (i : ι) :
    ∃ ms : List WrongthinkMessage, marks (view i l) = ms.flatMap sendMarks := by
  rcases hquiet i with hnil | hover
  · exact ⟨[], by rw [hnil]; rfl⟩
  obtain ⟨r, hr, hthread⟩ := hsend i
  have htrace := h.view_trace i
  rw [hthread] at htrace
  obtain ⟨ms, _, _, _, hmarks | ⟨hnone | ⟨e, he, hlost⟩, _⟩⟩ :=
    marks_send hr (fun e he ↦ h.sem_of_view he) htrace
  · exact ⟨ms, hmarks⟩
  · exact absurd hnone hover
  · exact absurd ⟨e, List.mem_map_of_mem (mem_view.mp he), hlost⟩ hinsert

theorem view_marked_of_pairs {ch : ℤ} {i : ι} {ms : List WrongthinkMessage}
    (h : marks (view i l) = ms.flatMap sendMarks) :
    view i (marked ch l) = (ms.filter (·.channelid = ch)).flatMap sendMarks := by
  rw [view_marked, h, filter_on_flatMap_sendMarks]

/-- **Live and stored messages.** Any number of sends, unary or streamed, in any interleaving: when
none is under way and no insert has failed, the live log of a channel and the table have gained
the same messages; and in the same order, if on this channel every append is followed by an action
of the same send. -/
theorem live_perm_stored (ch : ℤ)
    (hsend : ∀ i, ∃ r : Request, r.target = some .message ∧ c.thread i = r.handle)
    (h : Pool.Steps Op.Step c l c') (hinsert : ¬LostInsert (l.map Prod.snd))
    (hquiet : ∀ i, view i l = [] ∨ (c'.thread i).outcome ≠ none) :
    ∃ live stored, c'.state.log ch = c.state.log ch ++ live ∧
      c'.state.db.message.rows = c.state.db.message.rows ++ stored ∧
      (live.map WrongthinkMessage.bound).Perm
        ((stored.filter (·.channel = ch)).map MessageRow.bound) ∧
      ((∀ xs i id m rest, marked ch l = xs ++ (i, .append id m) :: rest →
          ∃ k rest', rest = (i, k) :: rest') →
        live.map WrongthinkMessage.bound =
          (stored.filter (·.channel = ch)).map MessageRow.bound) := by
  have hindex : ∀ e ∈ l.map Prod.snd, Indexed e.op e.before e.result e.after := by
    intro e he
    obtain ⟨⟨i, e⟩, hmem, rfl⟩ := List.mem_map.mp he
    obtain ⟨r, hr, hthread⟩ := hsend i
    exact indexed_of_view hthread h e (mem_view.mpr hmem)
  obtain ⟨stored, hrows, hbound⟩ := rows_of_run h.run
  have hlive := log_of_run h.run hindex ch
  have hstored := stored_filter hbound ch
  rw [← map_snd_marked] at hlive hstored
  refine ⟨_, stored, hlive, hrows, ?_, fun hnext ↦ ?_⟩
  · -- each thread appends and inserts in turn, so the columns agree thread by thread
    have hperm : (tagged (fun k ↦ k.appended?.map WrongthinkMessage.bound) (marked ch l)).Perm
        (tagged Mark.inserted? (marked ch l)) := by
      refine perm_of_view_eq fun i ↦ ?_
      obtain ⟨ms, hms⟩ := marks_view hsend h hinsert hquiet i
      rw [view_tagged, view_tagged, view_marked_of_pairs hms, inserted_flatMap_sendMarks,
        ← List.map_filterMap, appended_flatMap_sendMarks]
    have hperm' := hperm.map Prod.snd
    rw [map_snd_tagged, map_snd_tagged, ← List.map_filterMap] at hperm'
    rw [hstored]
    exact hperm'
  · obtain ⟨ms, hms⟩ : ∃ ms : List WrongthinkMessage,
        (marked ch l).map Prod.snd = ms.flatMap sendMarks := by
      refine exists_pairs (f := fun m ↦ .append m.channelid m) (fun i ↦ ?_)
        fun xs i m rest hl ↦ hnext xs i m.channelid m rest hl
      obtain ⟨ms, hms⟩ := marks_view hsend h hinsert hquiet i
      exact ⟨_, view_marked_of_pairs hms⟩
    rw [hstored, hms, appended_flatMap_sendMarks, inserted_flatMap_sendMarks]

end Runs

/-! ## Two sends that cross -/

/-- Two unary sends to the channel `1`. -/
private def crossing : Pool Bool Op Op.Result Exn Reply (World .postgres) where
  state := (serve (World.start .postgres 0) [.CreateUser ⟨"ann", "pw", false⟩,
    .CreateWrongthinkCommunity ⟨"all", 1, true⟩, .CreateWrongthinkChannel ⟨"main", 1, false, 1⟩]).2
  thread i := (Request.SendWrongthinkMessageWeb
    ⟨"ann", "", 1, 1, 0, 0, false, if i then "first" else "second", 0, 0⟩).handle

/-- The one appends; the other appends and inserts; the one inserts. -/
private def crossed : List (Bool × Action .postgres) × Pool Bool Op Op.Result Exn Reply
    (World .postgres) :=
  Pool.replay Op.exec crossing (List.replicate 7 true ++ List.replicate 6 false ++ [true])

private theorem crossed_steps : Pool.Steps Op.Step crossing crossed.1 crossed.2 :=
  Pool.replay_sound Op.step_exec _ _

theorem live_perm_stored_crossed :
    ∃ live stored, crossed.2.state.log 1 = crossing.state.log 1 ++ live ∧
      crossed.2.state.db.message.rows = crossing.state.db.message.rows ++ stored ∧
      (live.map WrongthinkMessage.bound).Perm
        ((stored.filter (·.channel = 1)).map MessageRow.bound) := by
  obtain ⟨live, stored, hlive, hstored, hperm, _⟩ := live_perm_stored 1
    (fun i ↦ ⟨.SendWrongthinkMessageWeb _, rfl, rfl⟩) crossed_steps (by decide)
    (fun i ↦ .inr (by cases i <;> exact nofun))
  exact ⟨live, stored, hlive, hstored, hperm⟩

/-- The log has the first message first, and the table has it second. -/
theorem exists_reordering :
    ¬∀ (c c' : Pool Bool Op Op.Result Exn Reply (World .postgres))
      (l : List (Bool × Action .postgres))
        (live : List WrongthinkMessage) (stored : List MessageRow),
      (∀ i, ∃ r : Request, r.target = some .message ∧ c.thread i = r.handle) →
      Pool.Steps Op.Step c l c' → ¬LostInsert (l.map Prod.snd) →
      (∀ i, view i l = [] ∨ (c'.thread i).outcome ≠ none) →
      c'.state.log 1 = c.state.log 1 ++ live →
      c'.state.db.message.rows = c.state.db.message.rows ++ stored →
        live.map WrongthinkMessage.bound =
          (stored.filter (·.channel = 1)).map MessageRow.bound := by
  intro h
  have horder := h crossing crossed.2 crossed.1 (crossed.2.state.log 1)
    crossed.2.state.db.message.rows (fun i ↦ ⟨.SendWrongthinkMessageWeb _, rfl, rfl⟩) crossed_steps
    (by decide) (fun i ↦ .inr (by cases i <;> exact nofun)) rfl rfl
  exact absurd horder (by decide)

end Wrongthink
