import Wrongthink.Messages.History
import Wrongthink.Messages.Order

/-!
# The live and the stored view of a message

A sent message reaches its readers in two ways. Live, the listeners of its channel are handed the
very message the client sent, with the name the client put in it. Later, `GetWrongthinkMessages`
builds it anew from the stored row and the row of its user, with the name that user has registered.
The two agree in all they share exactly if the client put in the registered name
(`views_agree_iff`); nothing in a send looks at it (`exists_disagreement`).
-/

namespace Wrongthink

open Concurrent Relational

variable {b : Backend}

/-! ## The live copy -/

/-- The message an append leaves for the listeners. -/
def liveCopy (e : Action b) : Option WrongthinkMessage :=
  match e.op, e.result with
  | .push id _, .ok _ => some (e.after.last id)
  | _, _ => none

theorem liveCopy_eq {o : Op} {w w' : World b} {r : Except Exn o.Result} (h : Op.Step o w r w')
    (hindex : Indexed o w r w') : liveCopy ⟨w, o, r, w'⟩ = (o.mark r).bind Mark.appended? := by
  cases o with
  | push id msg =>
    cases r with
    | error x => rfl
    | ok v =>
      exact congrArg some (h.last_push hindex)
  | sql q =>
    cases q with
    | insertMessage user_id channel thread_id thread_child mtext => cases r <;> rfl
    | _ => rfl
  | _ => rfl

/-- Until the next append, every listener of the channel is handed this copy. -/
theorem wake_eq_of_run {w w' w'' : World b} {tr : List (Action b)} {id : ℤ} {k : ThreadId}
    {v : WrongthinkMessage} (h : Run Op.Step w tr w') (hnone : ∀ e ∈ tr, ∀ msg, e.op ≠ .push id msg)
    (hwake : Op.Step (.wake id k) w' (.ok v) w'') : v = w.last id := by
  rw [wake_eq hwake]
  exact h.preserves (I := fun w₁ ↦ w₁.last id = w.last id)
    (fun e he hs hlast ↦ (hs.last_eq (hnone e he)).trans hlast) rfl

/-- Some listener of the channel is handed `v` after the append `e` and before the next one. -/
def Handed {ι : Type} (l : List (ι × Action b)) (e : Action b) (v : WrongthinkMessage) : Prop :=
  ∃ l₁ i l₂ j w id k w' l₃ msg, l = l₁ ++ (i, e) :: (l₂ ++ (j, ⟨w, .wake id k, .ok v, w'⟩) :: l₃) ∧
    e.op = .push id msg ∧ ∀ y ∈ l₂, ∀ msg', y.2.op ≠ .push id msg'

theorem liveCopy_of_handed {ι : Type} {l : List (ι × Action b)} {e : Action b}
    {v : WrongthinkMessage} {w w' : World b} (h : Run Op.Step w (l.map Prod.snd) w')
    (hv : Handed l e v) : liveCopy e = some v := by
  obtain ⟨l₁, i, l₂, j, w₁, id, k, w₁', l₃, msg, rfl, hop, hnone⟩ := hv
  rw [List.map_append, List.map_cons, List.map_append, List.map_cons] at h
  obtain ⟨_, _, h⟩ := run_append_iff.mp h
  obtain ⟨_, hstep, h⟩ := run_cons_iff.mp h
  obtain ⟨_, h, h'⟩ := run_append_iff.mp h
  obtain ⟨rfl, hwake, _⟩ := run_cons_iff.mp h'
  have hnone' : ∀ e ∈ l₂.map Prod.snd, ∀ msg', e.op ≠ .push id msg' := by
    intro e he
    obtain ⟨y, hy, rfl⟩ := List.mem_map.mp he
    exact hnone y hy
  obtain ⟨w₀, o, r, w₀'⟩ := e
  subst hop
  obtain ⟨u, rfl⟩ : ∃ u, r = .ok u := hstep.ok_of_not_store rfl
  rw [liveCopy, wake_eq_of_run h hnone' hwake]

/-! ## The stored copy -/

/-- The row behind an insert. -/
def storedRow (e : Action b) : Option MessageRow :=
  match e.op, e.result with
  | .sql (.insertMessage _ _ _ _ _), .ok _ => e.after.db.message.rows.getLast?
  | _, _ => none

theorem storedRow_eq {o : Op} {w w' : World b} {r : Except Exn o.Result} (h : Op.Step o w r w') :
    (storedRow ⟨w, o, r, w'⟩).map MessageRow.bound = (o.mark r).bind Mark.inserted? := by
  cases o with
  | push id msg => cases r <;> rfl
  | sql q =>
    cases q with
    | insertMessage user_id channel thread_id thread_child mtext =>
      cases r with
      | error x => rfl
      | ok v =>
        obtain ⟨new, hrows, hbound⟩ := h.message_rows
        obtain ⟨row, rfl⟩ : ∃ row, new = [row] := by
          rw [← List.length_eq_one_iff, ← List.length_map MessageRow.bound, hbound]
          rfl
        have hrow : row.bound = ⟨user_id, channel, thread_id, thread_child, mtext⟩ :=
          (List.cons.inj hbound).1
        have hlast : w'.db.message.rows.getLast? = some row := by
          rw [hrows, List.getLast?_append_of_ne_nil _ (by simp)]
          rfl
        rw [storedRow, hlast, Option.map_some, hrow]
        rfl
    | _ => rfl
  | _ => rfl

theorem mem_rows_of_storedRow {e : Action b} {row : MessageRow} (h : storedRow e = some row) :
    row ∈ e.after.db.message.rows := by
  rw [storedRow] at h
  split at h
  · exact List.mem_of_getLast? h
  · cases h

/-! ## Agreement -/

/-- The six fields that both views have. -/
structure Agrees (live x : WrongthinkMessage) : Prop where
  channelid : x.channelid = live.channelid
  userid : x.userid = live.userid
  uname : x.uname = live.uname
  threadid : x.threadid = live.threadid
  threadchild : x.threadchild = live.threadchild
  text : x.text = live.text

/-- The message carries the registered name of its user. -/
def World.Registered (w : World b) (m : WrongthinkMessage) : Prop :=
  ∃ u ∈ w.db.users.rows, u.user_id = m.userid ∧ u.uname = m.uname

/-- What the history shows for a stored row agrees with the message exactly if the message carries
the registered name. -/
theorem exists_agrees_iff {w : World b} {row : MessageRow} {m : WrongthinkMessage}
    (hrow : row ∈ w.db.message.rows) (hbound : row.bound = m.bound) :
    (∃ x ∈ w.history m.channelid, x.messageid = row.msg_id ∧ Agrees m x) ↔ w.Registered m := by
  rw [MessageRow.bound, WrongthinkMessage.bound, Bound.mk.injEq] at hbound
  obtain ⟨huserid, hchannelid, hthreadid, hthreadchild, htext⟩ := hbound
  constructor
  · rintro ⟨x, hx, hid, hagrees⟩
    obtain ⟨⟨r, u⟩, hmem, rfl⟩ := List.mem_map.mp hx
    obtain ⟨_, hu, huser⟩ := World.mem_joined.mp hmem
    exact ⟨u, hu, huser.trans hagrees.userid, hagrees.uname⟩
  · rintro ⟨u, hu, huser, huname⟩
    refine ⟨shown m.channelid (row, u), List.mem_map.mpr ⟨(row, u), ?_, rfl⟩, rfl, ?_⟩
    · exact World.mem_joined.mpr ⟨⟨hrow, hchannelid⟩, hu, huser.trans huserid.symm⟩
    · exact ⟨rfl, huserid, huname, hthreadid, hthreadchild, htext⟩

/-! ## The two views of a send -/

section Runs

variable {ι : Type} [DecidableEq ι] {c c' : Pool ι Op Op.Result Exn Reply (World b)}
  {l : List (ι × Action b)} {i : ι} {r : Request}

theorem filterMap_liveCopy (hthread : c.thread i = r.handle)
    (h : Pool.Steps Op.Step c l c') :
    (view i l).filterMap liveCopy = (marks (view i l)).filterMap Mark.appended? := by
  have hindex := indexed_of_view hthread h
  rw [marks, List.filterMap_filterMap]
  refine List.filterMap_congr fun e he ↦ ?_
  exact liveCopy_eq (h.sem_of_view he) (hindex e he)

theorem filterMap_storedRow (h : Pool.Steps Op.Step c l c') :
    ((view i l).filterMap storedRow).map MessageRow.bound =
      (marks (view i l)).filterMap Mark.inserted? := by
  rw [marks, List.filterMap_filterMap, List.map_filterMap]
  refine List.filterMap_congr fun e he ↦ ?_
  exact storedRow_eq (h.sem_of_view he)

theorem mem_rows_of_mem_view (h : Pool.Steps Op.Step c l c') {row : MessageRow}
    (hrow : row ∈ (view i l).filterMap storedRow) : row ∈ c'.state.db.message.rows := by
  obtain ⟨e, he, hstored⟩ := List.mem_filterMap.mp hrow
  have hgrows : e.after.Grows c'.state := (grows_of_steps h (mem_view.mp he)).2
  exact hgrows.db.message.subset (mem_rows_of_storedRow hstored)

/-- **Live and stored views.** A send that answers `OK`, whatever runs beside it, has left the
listeners a copy of each of its messages, and a row in the table for each. A later listing of the
channel shows the row as the listeners saw the message exactly if the message carries the
registered name of its user. -/
theorem views_agree_iff {reply : Reply} (hr : r.target = some .message)
    (hthread : c.thread i = r.handle) (h : Pool.Steps Op.Step c l c')
    (hdone : c'.thread i = .done reply) (hok : reply.1 = Status.OK) :
    (view i l).filterMap liveCopy = r.sends ∧
      (∀ e ∈ view i l, ∀ v, Handed l e v → liveCopy e = some v) ∧
      List.Forall₂ (fun row m ↦ ∀ (s : Served b) (w w' : World b), c'.state.Grows w →
          s.Handled w w' → s.Lists m.channelid →
            ((∃ out, s.reply = (Status.OK, .messages out) ∧
              ∃ x ∈ out, x.messageid = row.msg_id ∧ Agrees m x) ↔ w.Registered m))
        ((view i l).filterMap storedRow) r.sends := by
  have htrace := h.view_trace i
  rw [hthread] at htrace
  obtain ⟨ms₁, ms₂, hms, hreply, hmarks⟩ := marks_send hr
    (fun e he ↦ h.sem_of_view he) htrace
  obtain rfl : ms₂ = [] := (hreply reply hdone).1 hok
  have hmarks' : marks (view i l) = r.sends.flatMap sendMarks := by
    rw [hms, List.append_nil]
    exact hmarks.resolve_right fun ⟨_, m, hm, _⟩ ↦ nomatch hm
  have hlive := filterMap_liveCopy hthread h
  have hstored := filterMap_storedRow (i := i) h
  rw [hmarks', appended_flatMap_sendMarks] at hlive
  rw [hmarks', inserted_flatMap_sendMarks] at hstored
  refine ⟨hlive, fun e _ v hv ↦ liveCopy_of_handed h.run hv, ?_⟩
  refine (forall₂_of_map_eq hstored).imp fun row m ⟨hmem, hbound⟩ s w w' hgrows hs hlists ↦ ?_
  have hrow : row ∈ w.db.message.rows := hgrows.db.message.subset (mem_rows_of_mem_view h hmem)
  rw [hs.reply_getMessages hlists, ← exists_agrees_iff hrow hbound]
  constructor
  · rintro ⟨out, hout, hx⟩
    cases hout
    exact hx
  · exact fun hx ↦ ⟨_, rfl, hx⟩

end Runs

/-! ## A message under another name -/

/-- Two users and a channel. -/
private def pair : List (Served .postgres) × World .postgres :=
  serve (World.start .postgres 0) [.CreateUser ⟨"alice", "pw", false⟩,
    .CreateUser ⟨"bob", "pw", false⟩, .CreateWrongthinkCommunity ⟨"all", 1, true⟩,
    .CreateWrongthinkChannel ⟨"main", 1, false, 1⟩]

/-- The second user sends a message under the name `uname`. -/
private def message (uname : String) : WrongthinkMessage :=
  ⟨uname, "", 1, 2, 0, 0, false, "hello", 0, 0⟩

private def sender (uname : String) : Pool Unit Op Op.Result Exn Reply (World .postgres) where
  state := pair.2
  thread _ := (Request.SendWrongthinkMessageWeb (message uname)).handle

private def sent (uname : String) : List (Unit × Action .postgres) ×
    Pool Unit Op Op.Result Exn Reply (World .postgres) :=
  Pool.replay Op.exec (sender uname) (List.replicate 8 ())

private theorem sent_steps (uname : String) :
    Pool.Steps Op.Step (sender uname) (sent uname).1 (sent uname).2 :=
  Pool.replay_sound Op.step_exec _ _

/-- Under the registered name the two views agree. -/
theorem views_agree_iff_registered :
    ∃ row out x, (sent "bob").2.state.db.message.rows = [row] ∧
      out = (sent "bob").2.state.history 1 ∧ x ∈ out ∧ x.messageid = row.msg_id ∧
        Agrees (message "bob") x := by
  have hdone : (sent "bob").2.thread () = .done (Status.OK, .empty) := rfl
  obtain ⟨_, _, hviews⟩ := views_agree_iff (r := .SendWrongthinkMessageWeb (message "bob")) rfl rfl
    (sent_steps "bob") hdone rfl
  obtain ⟨row, rows, hview, _, hrows⟩ := List.forall₂_cons_right_iff.mp hviews
  have hregistered : (sent "bob").2.state.Registered (message "bob") :=
    ⟨⟨2, "bob", "pw", false⟩, by decide, rfl, rfl⟩
  obtain ⟨s, w, hs, hlists⟩ := exists_listing (sent "bob").2.state 1
  obtain ⟨out, hreply, x, hx, hid, hagrees⟩ :=
    (hview s _ _ (refl_of World.Grows _) hs hlists).mpr hregistered
  rw [hs.reply_getMessages hlists, Prod.mk.injEq, Response.messages.injEq] at hreply
  exact ⟨row, out, x, congrArg (fun r ↦ [r]) (List.cons.inj hrows).1, hreply.2.symm, hx,
    hid, hagrees⟩

/-- The second user sends as `alice`. The listeners are shown `alice`, the history `bob`. -/
theorem exists_disagreement :
    ¬∀ (ss : List (Served .postgres)) (c c' : Pool Unit Op Op.Result Exn Reply (World .postgres))
        (l : List (Unit × Action .postgres)) (m : WrongthinkMessage) (reply : Reply)
        (s : Served .postgres) (w : World .postgres),
      Serve (World.start .postgres 0) ss c.state →
      c.thread () = (Request.SendWrongthinkMessageWeb m).handle → Pool.Steps Op.Step c l c' →
      c'.thread () = .done reply → reply.1 = Status.OK →
      s.Handled c'.state w → s.Lists m.channelid →
        ∃ out, s.reply = (Status.OK, .messages out) ∧ ∃ x ∈ out, Agrees m x := by
  intro h
  have hdone : (sent "alice").2.thread () = .done (Status.OK, .empty) := rfl
  have hhistory : (sent "alice").2.state.history 1 =
      [⟨"bob", "", 1, 2, 0, 0, false, "hello", 0, 1⟩] := by decide
  obtain ⟨s, w, hs, hlists⟩ := exists_listing (sent "alice").2.state 1
  obtain ⟨out, hreply, x, hx, hagrees⟩ := h pair.1 (sender "alice") (sent "alice").2
    (sent "alice").1 (message "alice") _ s w (serve_sound _ _) rfl (sent_steps "alice") hdone rfl hs
    hlists
  rw [hs.reply_getMessages hlists, hhistory, Prod.mk.injEq, Response.messages.injEq] at hreply
  rw [← hreply.2, List.mem_singleton] at hx
  have huname : x.uname = "alice" := hagrees.uname
  rw [hx] at huname
  exact absurd huname (by decide)

end Wrongthink
