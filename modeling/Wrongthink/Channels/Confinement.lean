import Wrongthink.Channels.Entries

/-!
# Channels that do not exist

`checkForChannel` is meant to turn away a request for a channel that is not in the table: it tests
the indicator of the name it has looked up for null. But a lookup that finds nothing leaves the
indicator at `i_ok`, so the test never fails, the request is never refused, and a channel without a
row, with an empty name, gets an entry in `channelMap`.

What is true is this (`confined_of_found`). As long as every lookup that the database answers finds
a row, every entry of `channelMap` is the entry of a row, with its id and its name, and nothing is
ever done to a channel without a row. And whenever one does not find a row, the request is not
refused.
-/

namespace Wrongthink

open Concurrent WrongthinkServiceImpl

variable {b : Backend}

namespace World

/-- There is a channel with this id and this name. -/
def Named (w : World b) (id : ℤ) (name : String) : Prop :=
  ∃ c ∈ w.db.channels.rows, c.channel_id = id ∧ c.name = name

def HasChannel (w : World b) (id : ℤ) : Prop := ∃ c ∈ w.db.channels.rows, c.channel_id = id

instance (w : World b) (id : ℤ) : Decidable (w.HasChannel id) :=
  inferInstanceAs (Decidable (∃ c ∈ w.db.channels.rows, _))

/-- Every entry of `channelMap` is that of a channel. -/
def Confined (w : World b) : Prop :=
  ∀ id e, w.channelMap id = some e → e.wtChannel_.channelid = id ∧ w.Named id e.wtChannel_.name

variable {w w' : World b} {id : ℤ} {name : String}

theorem Named.hasChannel (h : w.Named id name) : w.HasChannel id := by
  obtain ⟨c, hc, hid, _⟩ := h
  exact ⟨c, hc, hid⟩

theorem Named.grows (h : w.Named id name) (hle : w.Grows w') : w'.Named id name := by
  obtain ⟨c, hc, hid⟩ := h
  exact ⟨c, hle.db.channels.subset hc, hid⟩

theorem confined_start (b : Backend) (now : ℤ) : (start b now).Confined := by
  intro id e he
  have hnone : (none : Option (SynchronizedChannel ThreadId)) = some e := he
  cases hnone

theorem Confined.hasChannel (h : w.Confined) (hid : (w.channelMap id).isSome) :
    w.HasChannel id := by
  obtain ⟨e, he⟩ := Option.isSome_iff_exists.mp hid
  exact (h id e he).2.hasChannel

theorem Confined.mono (h : w.Confined) (hle : w.Grows w') (hmap : w'.channelMap = w.channelMap) :
    w'.Confined := by
  intro id e he
  rw [hmap] at he
  obtain ⟨hid, hname⟩ := h id e he
  exact ⟨hid, hname.grows hle⟩

theorem Confined.modify {f : SynchronizedChannel ThreadId → SynchronizedChannel ThreadId}
    (h : w.Confined) (hf : ∀ e, (f e).wtChannel_ = e.wtChannel_) : (w.modify id f).Confined := by
  intro id' e he
  by_cases hid : id' = id
  · subst hid
    rw [channelMap_modify_self, Option.map_eq_some_iff] at he
    obtain ⟨e', he', rfl⟩ := he
    rw [hf]
    exact h id' e' he'
  · rw [channelMap_modify_of_ne w hid] at he
    exact h id' e he

theorem Confined.insertNew {e : SynchronizedChannel ThreadId} (h : w.Confined)
    (he : w.channelMap id = none → e.wtChannel_.channelid = id ∧ w.Named id e.wtChannel_.name) :
    (w.insertNew id e).Confined := by
  intro id' e' he'
  by_cases hid : id' = id
  swap
  · rw [channelMap_insertNew_of_ne w hid] at he'
    exact h id' e' he'
  subst hid
  rw [channelMap_insertNew_self, Option.some.injEq] at he'
  cases hentry : w.channelMap id' with
  | none =>
    rw [hentry, Option.getD_none] at he'
    rw [← he']
    exact he hentry
  | some e₀ =>
    rw [hentry, Option.getD_some] at he'
    rw [← he']
    exact h id' e₀ hentry

end World

/-! ## One step -/

/-- The actions that only ask whether a channel is there. -/
def Op.asks : Op → Bool
  | count _ | sql (.selectChannelName _) => true
  | _ => false

/-- The action is at its place in `w`: what it works on is a channel; an entry that it makes is
given the channel's name; one that it takes is there. -/
structure Op.Placed (o : Op) (w : World b) : Prop where
  channel : ∀ id, o.channel = some id → o.asks = false → w.HasChannel id
  name : ∀ id name, o = .emplace id name → w.Named id name
  entry : ∀ id, o = .index id → (w.channelMap id).isSome

theorem Op.placed_of_channel_none {o : Op} (ho : o.channel = none) (w : World b) : o.Placed w := by
  refine ⟨fun id hid ↦ ?_, fun id name h ↦ ?_, fun id h ↦ ?_⟩
  · rw [ho] at hid
    cases hid
  · rw [h] at ho
    cases ho
  · rw [h] at ho
    cases ho

theorem Op.placed_of_asks {o : Op} (ho : o.asks = true) (w : World b) : o.Placed w := by
  refine ⟨fun id _ hid ↦ ?_, fun id name h ↦ ?_, fun id h ↦ ?_⟩
  · rw [ho] at hid
    cases hid
  · rw [h] at ho
    cases ho
  · rw [h] at ho
    cases ho

/-- **One step.** At its place, an action keeps the entries confined. -/
theorem Op.Step.confined {o : Op} {w w' : World b} {r : Except Exn o.Result} (h : Op.Step o w r w')
    (ho : o.Placed w) (hw : w.Confined) : w'.Confined := by
  obtain ⟨d, ⟨_, rfl⟩ | ⟨_, _, rfl⟩⟩ := h.cases
  swap
  · -- a lost statement
    exact hw.mono h.grows rfl
  have hd : (w.drift d).Confined := hw.mono (w.grows_drift d) rfl
  cases o with
  | emplace id name =>
    refine hd.insertNew fun _ ↦ ⟨rfl, ?_⟩
    exact (ho.name id name rfl).grows (w.grows_drift d)
  | index id =>
    -- `operator[]` makes no entry where there is one
    refine hd.insertNew fun hnone ↦ ?_
    have hsome : ((w.drift d).channelMap id).isSome := ho.entry id rfl
    rw [hnone] at hsome
    cases hsome
  | push id msg => exact hd.modify (f := (·.push msg)) fun _ ↦ rfl
  | notifyAll id => exact hd.modify (f := (·.notifyAll)) fun _ ↦ rfl
  | wait id l => exact hd.modify (f := (·.wait l)) fun _ ↦ rfl
  | wake id l => exact hd.modify (f := (·.wake l)) fun _ ↦ rfl
  | _ => exact hw.mono h.grows rfl

/-- The id that a lookup in the table asks for. -/
def Op.lookup : Op → Option ℤ
  | sql (.selectChannelName id) => some id
  | _ => none

theorem Op.channel_of_lookup {o : Op} {id : ℤ} (h : id ∈ o.lookup) : o.channel = some id := by
  cases o with
  | sql q =>
    cases q with
    | selectChannelName id' => exact h
    | _ => cases h
  | _ => cases h

/-- A lookup that the database answers, of an id that no row has. -/
def Missed (o : Op) (w : World b) (r : Except Exn o.Result) (_ : World b) : Prop :=
  ∃ id ∈ o.lookup, r.isOk = true ∧ ¬w.HasChannel id

instance (o : Op) (w : World b) (r : Except Exn o.Result) (w' : World b) :
    Decidable (Missed o w r w') := inferInstanceAs (Decidable (∃ id ∈ o.lookup, _))

/-- A step that is no such lookup. -/
def FoundStep : Semantics Op Op.Result Exn (World b) := fun o w r w' ↦
  Op.Step o w r w' ∧ ¬Missed o w r w'

theorem FoundStep.named {id : ℤ} {name : Option String} {w w' : World b}
    (h : FoundStep (.sql (.selectChannelName id)) w (.ok name) w') :
    w'.Named id (name.getD "") := by
  obtain ⟨hstep, hfound⟩ := h
  have hid : w.HasChannel id := by
    by_contra hid
    exact hfound ⟨id, rfl, rfl, hid⟩
  obtain ⟨d, hr, _⟩ := hstep.ok
  have hname : name = (w.db.channels.rows.find? fun c ↦ c.channel_id = id).map (·.name) :=
    Except.ok.inj hr
  cases hfind : w.db.channels.rows.find? fun c ↦ c.channel_id = id with
  | none =>
    obtain ⟨c, hc, hcid⟩ := hid
    exact absurd (decide_eq_true hcid) (List.find?_eq_none.mp hfind c hc)
  | some c =>
    rw [hname, hfind]
    have hcid : c.channel_id = id := by simpa using List.find?_some hfind
    have hnamed : w.Named id c.name := ⟨c, List.mem_of_find?_eq_some hfind, hcid, rfl⟩
    exact hnamed.grows hstep.grows

/-! ## The handlers -/

/-- How the others may move the world: it grows, and what was confined stays so. -/
structure World.Keeps (w w' : World b) : Prop where
  grows : w.Grows w'
  confined : w.Confined → w'.Confined

instance : IsPreorder (World b) World.Keeps where
  refl w := ⟨refl_of World.Grows w, id⟩
  trans _ _ _ h h' := ⟨trans_of World.Grows h.grows h'.grows, h'.confined ∘ h.confined⟩

/-- Every action of the program is at its place. -/
abbrev Confining {α : Type} (p : Routine α) (Q : World b → Prop) (w : World b) : Prop :=
  p.Safe FoundStep World.Keeps (fun o w _ w' ↦ o.Placed w ∧ w.Keeps w') (fun _ ↦ Q)
    (fun _ _ ↦ True) w

theorem FoundStep.keeps {o : Op} {w w' : World b} {r : Except Exn o.Result}
    (h : FoundStep o w r w') (ho : o.Placed w) : w.Keeps w' := ⟨h.1.grows, h.1.confined ho⟩

theorem confining_bind {α : Type} {o : Op} {f : o.Result → Routine α} {Q : World b → Prop}
    {w : World b} (ho : ∀ w', w.Keeps w' → o.Placed w')
    (hok : ∀ w', w.Keeps w' → ∀ v w'', FoundStep o w' (.ok v) w'' → Confining (f v) Q w'') :
    Confining (perform o >>= f) Q w :=
  Prog.Safe.perform_bind (fun w' hle _ _ h ↦ ⟨ho w' hle, h.keeps (ho w' hle)⟩) hok
    fun _ _ _ _ _ _ _ ↦ trivial

theorem confining_perform {o : Op} {Q : World b → Prop} {w : World b}
    (ho : ∀ w', w.Keeps w' → o.Placed w') (hQ : ∀ w' w'', Q w' → w'.Keeps w'' → Q w'')
    (hok : ∀ w', w.Keeps w' → ∀ v w'', FoundStep o w' (.ok v) w'' → Q w'') :
    Confining (perform o : Routine o.Result) Q w :=
  Prog.Safe.perform (Q := fun _ ↦ Q) (fun w' hle _ _ h ↦ ⟨ho w' hle, h.keeps (ho w' hle)⟩)
    (fun w' hle v w'' h t hle' ↦ hQ w'' t (hok w' hle v w'' h) hle') fun _ _ _ _ _ _ _ ↦ trivial

/-- The channel exists and has its entry. -/
structure World.Ready (w : World b) (id : ℤ) : Prop where
  confined : w.Confined
  entry : (w.channelMap id).isSome

namespace World.Ready

variable {w w' : World b} {id : ℤ}

theorem keeps (h : w.Ready id) (hle : w.Keeps w') : w'.Ready id :=
  ⟨hle.confined h.confined, hle.grows.isSome h.entry⟩

theorem placed (h : w.Ready id) {o : Op} (ho : o.channel = some id)
    (hnew : ∀ name, o ≠ .emplace id name) : o.Placed w := by
  refine ⟨fun id' hid' _ ↦ ?_, fun id' name hop ↦ ?_, fun id' hop ↦ ?_⟩
  · rw [ho, Option.some.injEq] at hid'
    rw [← hid']
    exact h.confined.hasChannel h.entry
  · subst hop
    rw [Op.channel, Option.some.injEq] at ho
    exact absurd (by rw [ho]) (hnew name)
  · subst hop
    rw [Op.channel, Option.some.injEq] at ho
    rw [ho]
    exact h.entry

theorem bind {α : Type} {o : Op} {f : o.Result → Routine α} {Q : World b → Prop} (h : w.Ready id)
    (ho : o.channel = some id) (hnew : ∀ name, o ≠ .emplace id name)
    (hf : ∀ v w', w'.Ready id → Confining (f v) Q w') : Confining (perform o >>= f) Q w := by
  have hplaced : ∀ w', w.Keeps w' → o.Placed w' := fun w' hle ↦ (h.keeps hle).placed ho hnew
  refine confining_bind hplaced fun w' hle v w'' hstep ↦ hf v w'' ?_
  exact (h.keeps hle).keeps (hstep.keeps (hplaced w' hle))

end World.Ready

theorem cacheChannel_confining (channelid : ℤ) {w : World b} (hw : w.Confined) :
    Confining (cacheChannel channelid) (World.Ready · channelid) w := by
  refine confining_bind (fun w' _ ↦ Op.placed_of_asks rfl w') fun w₁ hle n w₂ hcount ↦ ?_
  have hplaced : (Op.count channelid).Placed w₁ := Op.placed_of_asks rfl w₁
  have hw₂ : w₂.Confined := (hcount.keeps hplaced).confined (hle.confined hw)
  by_cases hn : n = 1
  · -- the entry is there already
    rw [if_neg (not_not.mpr hn)]
    obtain ⟨d, hr, rfl⟩ := hcount.1.ok
    have hsome : (w₁.channelMap channelid).isSome := by
      by_contra hnone
      have hn' : n = if (w₁.channelMap channelid).isSome then 1 else 0 := Except.ok.inj hr
      rw [if_neg hnone, hn] at hn'
      cases hn'
    have hready : World.Ready _ channelid := ⟨hw₂, hsome⟩
    exact fun w' hle' ↦ hready.keeps hle'
  · -- the name that is emplaced is the one just read, and names do not change
    rw [if_pos hn]
    refine confining_bind (fun w' _ ↦ Op.placed_of_asks rfl w') fun w₃ hle₃ name w₄ hselect ↦ ?_
    have hw₄ : w₄.Confined :=
      (hselect.keeps (Op.placed_of_asks rfl w₃)).confined (hle₃.confined hw₂)
    have hemplace : ∀ w', w₄.Keeps w' → (Op.emplace channelid (name.getD "")).Placed w' := by
      intro w' hle'
      have hnamed := hselect.named.grows hle'.grows
      refine ⟨fun id hid _ ↦ ?_, fun id name' hop ↦ ?_, nofun⟩
      · rw [← Option.some.inj hid]
        exact hnamed.hasChannel
      · rw [Op.emplace.injEq] at hop
        rw [← hop.1, ← hop.2]
        exact hnamed
    refine confining_perform hemplace (fun _ _ hready ↦ hready.keeps) fun w₅ hle₅ v w₆ h ↦ ?_
    refine ⟨(h.keeps (hemplace w₅ hle₅)).confined (hle₅.confined hw₄), ?_⟩
    obtain ⟨d, _, rfl⟩ := h.1.ok
    rw [Op.exec, World.channelMap_insertNew_self]
    rfl

theorem sendOne_confining (msg : WrongthinkMessage) {w : World b} (hw : w.Confined) :
    Confining (sendOne msg) World.Confined w := by
  refine (cacheChannel_confining msg.channelid hw).bind fun _ w₁ h₁ ↦ ?_
  rw [appendMessage, Prog.bind_assoc]
  refine h₁.bind rfl (by simp) fun _ w₂ h₂ ↦ ?_
  rw [Prog.bind_assoc]
  refine h₂.bind rfl (by simp) fun _ w₃ h₃ ↦ ?_
  refine h₃.bind rfl (by simp) fun _ w₄ h₄ ↦ ?_
  have hplaced : ∀ w', w₄.Keeps w' → (Op.sql (.insertMessage msg.userid msg.channelid msg.threadid
      msg.threadchild msg.text)).Placed w' := fun w' hle ↦ (h₄.keeps hle).placed rfl (by simp)
  refine confining_perform hplaced (fun _ _ hw' hle ↦ hle.confined hw') fun w₅ hle v w₆ h ↦ ?_
  exact (h.keeps (hplaced w₅ hle)).confined (hle.confined h₄.confined)

theorem sendLoop_confining (reader : List WrongthinkMessage) {w : World b} (hw : w.Confined) :
    Confining (sendLoop reader) (fun _ ↦ True) w := by
  induction reader generalizing w with
  | nil => exact fun _ _ ↦ trivial
  | cons msg reader ih =>
    rw [sendLoop_cons]
    exact (sendOne_confining msg hw).bind fun _ _ hw' ↦ ih hw'

theorem listenLoop_confining (channelid : ℤ) (l : ThreadId) (turns : ℕ) {w : World b}
    (h : w.Ready channelid) : Confining (listenLoop channelid l turns) (fun _ ↦ True) w := by
  induction turns generalizing w with
  | zero => exact fun _ _ ↦ trivial
  | succ turns ih =>
    refine h.bind rfl nofun fun _ w₁ h₁ ↦ ?_
    refine h₁.bind rfl nofun fun msg w₂ h₂ ↦ ?_
    have hplaced : ∀ w' : World b, (Op.write msg).Placed w' := Op.placed_of_channel_none rfl
    refine confining_bind (fun w' _ ↦ hplaced w') fun w₃ hle _ w₄ hwrite ↦ ih ?_
    exact (h₂.keeps hle).keeps (hwrite.keeps (hplaced w₃))

theorem handle_confining (r : Request) {w : World b} (hw : w.Confined) :
    Confining r.handle (fun _ ↦ True) w := by
  have hsession : ∀ w' : World b, Op.session.Placed w' := Op.placed_of_channel_none rfl
  cases hr : r.onChannel with
  | false =>
    refine Prog.Safe.of_only (fun _ _ _ _ ↦ trivial) (fun o w _ w' ho _ h ↦ ?_)
      (r.handle_aside hr) trivial
    have hplaced : o.Placed w := Op.placed_of_channel_none ho.2 w
    exact ⟨⟨hplaced, h.keeps hplaced⟩, h.keeps hplaced⟩
  | true =>
    by_cases hsend : r.target = some .message
    · rw [Request.handle_of_target_message hsend]
      refine safe_caught (confining_bind (fun w' _ ↦ hsession w') fun w₁ hle _ w₂ h ↦ ?_)
      exact sendLoop_confining _ ((h.keeps (hsession w₁)).confined (hle.confined hw))
    · cases r with
      | ListenWrongthinkMessages channelid l turns =>
        rw [handle_listen]
        refine confining_bind (fun w' _ ↦ hsession w') fun w₁ hle _ w₂ h ↦ ?_
        have hw₂ : w₂.Confined := (h.keeps (hsession w₁)).confined (hle.confined hw)
        refine (cacheChannel_confining channelid hw₂).bind fun _ w₃ h₃ ↦ ?_
        refine h₃.bind rfl nofun fun _ w₄ h₄ ↦ ?_
        exact (listenLoop_confining channelid l turns h₄).bind fun _ _ _ _ _ ↦ trivial
      | SendWrongthinkMessageWeb msg | SendWrongthinkMessage reader => exact absurd rfl hsend
      | _ => cases hr

/-! ## Nobody is refused -/

theorem eq_ok_of_sendLoop {reader : List WrongthinkMessage} {tr : List (Action b)}
    {x : Status × Unit} (h : (sendLoop reader).Trace tr (.done x)) : x = (Status.OK, ()) := by
  induction reader generalizing tr with
  | nil =>
    obtain ⟨_, hx⟩ := Prog.trace_done_iff.mp h
    exact Prog.done.inj hx
  | cons msg reader ih =>
    rw [sendLoop_cons] at h
    obtain ⟨_, _, _, _, _, h'⟩ := h.of_bind_done
    exact ih h'

/-- A request that looks at channels is answered `OK`, or `INTERNAL` after an exception. -/
theorem ne_INVALID_ARGUMENT {r : Request} (hr : r.onChannel = true) {tr : List (Action b)}
    {reply : Reply} (h : r.handle.Trace tr (.done reply)) : reply.1 ≠ Status.INVALID_ARGUMENT := by
  by_cases hsend : r.target = some .message
  · rw [Request.handle_of_target_message hsend] at h
    obtain ⟨q, hq, hreply⟩ := trace_caught h
    rcases caught_eq_done hreply.symm with ⟨x, rfl, rfl⟩ | ⟨_, rfl⟩
    · obtain ⟨_, _, _, _, _, hloop⟩ := hq.of_bind_done
      rw [eq_ok_of_sendLoop hloop]
      exact nofun
    · exact nofun
  cases r with
  | ListenWrongthinkMessages channelid l turns =>
    rw [handle_listen] at h
    -- the session, the cache, `operator[]` and the loop
    obtain ⟨_, _, _, _, _, h⟩ := h.of_bind_done
    obtain ⟨_, _, _, _, _, h⟩ := h.of_bind_done
    obtain ⟨_, _, _, _, _, h⟩ := h.of_bind_done
    obtain ⟨_, _, _, _, _, h⟩ := h.of_bind_done
    obtain ⟨_, hx⟩ := Prog.trace_done_iff.mp h
    rw [Prog.done.inj hx]
    exact nofun
  | SendWrongthinkMessageWeb msg | SendWrongthinkMessage reader => exact absurd rfl hsend
  | _ => cases hr

/-! ## Runs -/

section Runs

variable {ι : Type} [DecidableEq ι] {c c' : Pool ι Op Op.Result Exn Reply (World b)}
  {l : List (ι × Action b)} {now : ℤ}

/-- No lookup in the run has missed. -/
def Found (l : List (ι × Action b)) : Prop :=
  ∀ x ∈ l, ¬Missed x.2.op x.2.before x.2.result x.2.after

/-- The run `l` has kept to existing channels. -/
structure Sealed (l : List (ι × Action b)) (c' : Pool ι Op Op.Result Exn Reply (World b)) :
    Prop where
  /-- Each entry of `channelMap` has the id and the name of a channel. -/
  confined : c'.state.Confined
  /-- Nothing was created for, appended to or stored for a channel that did not exist. -/
  exists_row : ∀ x ∈ l, ∀ id, x.2.op.channel = some id → x.2.op.asks = false →
    x.2.before.HasChannel id
  /-- The calls that did not find their channel were refused. -/
  refused : ∀ i, (∃ e ∈ view i l, Missed e.op e.before e.result e.after) →
    (c'.thread i).outcome ≠ none →
      ∃ response, c'.thread i = .done (Status.INVALID_ARGUMENT, response)

theorem not_mem_of_found (h : Found l) (i : ι) :
    ¬∃ e ∈ view i l, Missed e.op e.before e.result e.after := by
  rintro ⟨e, he, hmissed⟩
  exact h (i, e) (mem_view.mp he) hmissed

/-- **Confinement.** Any requests, on a new server, in any interleaving: as long as no lookup
misses, the run keeps to existing channels. And no longer than that: once all calls have ended, a
lookup that missed was not refused. -/
theorem confined_of_found (hreq : ∀ i, ∃ r : Request, c.thread i = r.handle)
    (hstart : c.state = World.start b now) (h : Pool.Steps Op.Step c l c') :
    (Found l → Sealed l c') ∧
      ((∀ i, view i l = [] ∨ (c'.thread i).outcome ≠ none) → Sealed l c' → Found l) := by
  constructor
  · intro hfound
    have h' : Pool.Steps FoundStep c l c' := h.mono fun x hx hs ↦ ⟨hs, hfound x hx⟩
    have hc : c.state.Confined := by
      rw [hstart]
      exact World.confined_start b now
    have hsafe : ∀ i, Confining (c.thread i) (fun _ ↦ True) c.state := by
      intro i
      obtain ⟨r, hr⟩ := hreq i
      rw [hr]
      exact handle_confining r hc
    obtain ⟨hkeeps, _, hlog⟩ := h'.safe hsafe fun _ _ _ _ _ hG ↦ hG.2
    exact ⟨hkeeps.confined hc, fun x hx ↦ (hlog x hx).1.channel, fun i hi ↦
      absurd hi (not_mem_of_found hfound i)⟩
  · rintro hquiet hsealed ⟨i, e⟩ hx hmissed
    have he : e ∈ view i l := mem_view.mpr hx
    have hover : (c'.thread i).outcome ≠ none := by
      refine (hquiet i).resolve_left fun hnil ↦ ?_
      rw [hnil] at he
      simp at he
    obtain ⟨response, hdone⟩ := hsealed.refused i ⟨e, he, hmissed⟩ hover
    obtain ⟨r, hr⟩ := hreq i
    have htrace := h.view_trace i
    rw [hr] at htrace
    cases hon : r.onChannel with
    | true =>
      rw [hdone] at htrace
      exact ne_INVALID_ARGUMENT hon htrace rfl
    | false =>
      -- the other handlers look nothing up
      have hnone : e.op.channel = none := (((r.handle_aside hon).trace htrace).1 e he).2
      obtain ⟨id, hid, _⟩ := hmissed
      rw [Op.channel_of_lookup hid] at hnone
      cases hnone

end Runs

/-! ## Two runs -/

/-- A channel is set up and used. -/
private def setUp : Fin 4 → Request
  | 0 => .CreateUser ⟨"ann", "pw", false⟩
  | 1 => .CreateWrongthinkCommunity ⟨"all", 1, true⟩
  | 2 => .CreateWrongthinkChannel ⟨"main", 1, false, 1⟩
  | 3 => .SendWrongthinkMessageWeb ⟨"ann", "", 1, 1, 0, 0, false, "hello", 0, 0⟩

/-- A channel is used that nobody has set up. -/
private def astray : Unit → Request := fun _ ↦
  .SendWrongthinkMessageWeb ⟨"ann", "", 7, 1, 0, 0, false, "hello", 0, 0⟩

private def waiting {ι : Type} (rs : ι → Request) :
    Pool ι Op Op.Result Exn Reply (World .postgres) where
  state := World.start .postgres 0
  thread i := (rs i).handle

private def sentThere : List (Fin 4 × Action .postgres) ×
    Pool (Fin 4) Op Op.Result Exn Reply (World .postgres) :=
  Pool.replay Op.exec (waiting setUp) ([0, 1, 2, 3].flatMap fun i ↦ List.replicate 8 i)

private def sentAstray : List (Unit × Action .postgres) ×
    Pool Unit Op Op.Result Exn Reply (World .postgres) :=
  Pool.replay Op.exec (waiting astray) (List.replicate 8 ())

theorem confined_of_found_setUp : Sealed sentThere.1 sentThere.2 := by
  have hsteps : Pool.Steps Op.Step (waiting setUp) sentThere.1 sentThere.2 :=
    Pool.replay_sound Op.step_exec _ _
  exact (confined_of_found (fun i ↦ ⟨setUp i, rfl⟩) rfl hsteps).1 (by unfold Found; decide)

/-- The send to the channel that does not exist is not refused, and leaves an entry behind. -/
theorem exists_stray :
    ¬∀ (c c' : Pool Unit Op Op.Result Exn Reply (World .postgres))
      (l : List (Unit × Action .postgres)),
      (∀ i, ∃ r : Request, c.thread i = r.handle) → c.state = World.start .postgres 0 →
        Pool.Steps Op.Step c l c' → Sealed l c' := by
  intro h
  have hsealed := h (waiting astray) sentAstray.2 sentAstray.1 (fun i ↦ ⟨astray i, rfl⟩) rfl
    (Pool.replay_sound Op.step_exec _ _)
  obtain ⟨e, he⟩ : ∃ e, sentAstray.2.state.channelMap 7 = some e := ⟨_, rfl⟩
  have hrow : sentAstray.2.state.HasChannel 7 := (hsealed.confined 7 e he).2.hasChannel
  exact absurd hrow (by decide)

end Wrongthink
