import Wrongthink.Messages.Sends

/-!
# The entries of `channelMap`

What the actions do to the entry of a channel, one field at a time: the log that `push` extends, the
last message that the listeners are handed, and the listeners that are blocked. An action *edits*
at most one entry (`Op.edit`), and the handlers see to it that there is one (`handle_indexing`).
-/

namespace Wrongthink

open Concurrent WrongthinkServiceImpl

variable {b : Backend}

namespace World

/-- The entry of a channel; an empty one, where there is none. -/
def entry (w : World b) (ch : ℤ) : SynchronizedChannel ThreadId := (w.channelMap ch).getD default

/-- The messages appended to a channel. -/
def log (w : World b) (ch : ℤ) : List WrongthinkMessage := (w.entry ch).msgVector_

/-- What a listener that leaves its wait on `ch` is handed. -/
def last (w : World b) (ch : ℤ) : WrongthinkMessage := (w.entry ch).lastMessage_

/-- The listeners that are blocked on `ch` and not yet woken. -/
def waiters (w : World b) (ch : ℤ) : List ThreadId := (w.entry ch).channelCondition_

variable {γ : Type} {g : SynchronizedChannel ThreadId → γ} {id : ℤ}

theorem entry_modify_self {f : SynchronizedChannel ThreadId → SynchronizedChannel ThreadId}
    {w : World b} (hid : (w.channelMap id).isSome) : (w.modify id f).entry id = f (w.entry id) := by
  obtain ⟨e, he⟩ := Option.isSome_iff_exists.mp hid
  rw [entry, entry, channelMap_modify_self, he]
  rfl

theorem entry_modify_of_ne {f : SynchronizedChannel ThreadId → SynchronizedChannel ThreadId}
    {ch : ℤ} (h : ch ≠ id) (w : World b) : (w.modify id f).entry ch = w.entry ch := by
  rw [entry, entry, channelMap_modify_of_ne w h]

theorem entry_insertNew {e : SynchronizedChannel ThreadId} (he : g e = g default) (w : World b)
    (ch : ℤ) : g ((w.insertNew id e).entry ch) = g (w.entry ch) := by
  rw [entry, entry]
  by_cases hid : ch = id
  · subst hid
    rw [channelMap_insertNew_self]
    cases w.channelMap ch with
    | none => exact he
    | some e' => rfl
  · rw [channelMap_insertNew_of_ne w hid]

theorem Grows.isSome {w w' : World b} (h : w.Grows w') (hid : (w.channelMap id).isSome) :
    (w'.channelMap id).isSome := by
  obtain ⟨e, he⟩ := Option.isSome_iff_exists.mp hid
  obtain ⟨e', he', _⟩ := h.channelMap id e he
  rw [he']
  rfl

theorem Grows.log_prefix {w w' : World b} (h : w.Grows w') (ch : ℤ) : w.log ch <+: w'.log ch := by
  rw [log, log, entry, entry]
  cases hch : w.channelMap ch with
  | none => exact List.nil_prefix
  | some e =>
    obtain ⟨e', he', _, hgrown⟩ := h.channelMap ch e hch
    rw [he']
    exact hgrown

end World

/-! ## What a step does to an entry -/

/-- The entry that an action works on, and what it does to it. -/
def Op.edit : Op → Option (ℤ × (SynchronizedChannel ThreadId → SynchronizedChannel ThreadId))
  | push id msg => some (id, (·.push msg))
  | notifyAll id => some (id, (·.notifyAll))
  | wait id l => some (id, (·.wait l))
  | wake id l => some (id, (·.wake l))
  | _ => none

/-- An action finds the entry it works on. -/
def Indexed (o : Op) (w : World b) (_ : Except Exn o.Result) (_ : World b) : Prop :=
  ∀ id f, o.edit = some (id, f) → (w.channelMap id).isSome

namespace Op.Step

variable {o : Op} {w w' : World b} {r : Except Exn o.Result} {ch : ℤ}

/-- An edit is an execution: the connection plays no part in it. -/
theorem eq_modify {f : SynchronizedChannel ThreadId → SynchronizedChannel ThreadId} {id : ℤ}
    (h : Op.Step o w r w') (ho : o.edit = some (id, f)) :
    ∃ d : World.Drift, w' = (w.drift d).modify id f := by
  obtain ⟨d, ⟨_, rfl⟩ | ⟨hstore, _, _⟩⟩ := h.cases
  · refine ⟨d, ?_⟩
    cases o with
    | push _ _ | notifyAll _ | wait _ _ | wake _ _ =>
      cases ho
      rfl
    | _ => cases ho
  · cases o with
    | session | sql _ => cases ho
    | _ => cases hstore

theorem entry_of_edit {f : SynchronizedChannel ThreadId → SynchronizedChannel ThreadId}
    (h : Op.Step o w r w') (hindex : Indexed o w r w') (ho : o.edit = some (ch, f)) :
    w'.entry ch = f (w.entry ch) := by
  obtain ⟨d, rfl⟩ := h.eq_modify ho
  have hch : ((w.drift d).channelMap ch).isSome := hindex ch f ho
  exact World.entry_modify_self hch

/-- What no edit of `ch` touches stays as it is. -/
theorem entry_eq {γ : Type} {g : SynchronizedChannel ThreadId → γ} (h : Op.Step o w r w')
    (hnew : ∀ id name, g (.new id name) = g default)
    (ho : ∀ f, o.edit = some (ch, f) → ∀ e, g (f e) = g e) :
    g (w'.entry ch) = g (w.entry ch) := by
  cases hedit : o.edit with
  | some x =>
    obtain ⟨id, f⟩ := x
    obtain ⟨d, rfl⟩ := h.eq_modify hedit
    have hdrift : (w.drift d).entry ch = w.entry ch := rfl
    by_cases hid : ch = id
    · subst hid
      have hf := ho f hedit
      rw [← hdrift, World.entry, World.entry, World.channelMap_modify_self]
      cases (w.drift d).channelMap ch with
      | none => rfl
      | some e => exact hf e
    · rw [World.entry_modify_of_ne hid, hdrift]
  | none =>
    obtain ⟨d, ⟨_, rfl⟩ | ⟨_, _, rfl⟩⟩ := h.cases
    · have hdrift : (w.drift d).entry ch = w.entry ch := rfl
      rw [← hdrift]
      cases o with
      | emplace id name => exact World.entry_insertNew (hnew id name) _ ch
      | index id => exact World.entry_insertNew rfl _ ch
      | push _ _ | notifyAll _ | wait _ _ | wake _ _ => cases hedit
      | _ => rfl
    · rfl

theorem last_eq (h : Op.Step o w r w') (ho : ∀ msg, o ≠ .push ch msg) : w'.last ch = w.last ch := by
  refine h.entry_eq (g := (·.lastMessage_)) (fun _ _ ↦ rfl) fun f hf e ↦ ?_
  cases o with
  | push id msg =>
    cases hf
    exact absurd rfl (ho msg)
  | notifyAll id | wait id l | wake id l =>
    cases hf
    rfl
  | _ => cases hf

theorem last_push {msg : WrongthinkMessage} {r : Except Exn (Op.push ch msg).Result}
    (h : Op.Step (.push ch msg) w r w') (hindex : Indexed (.push ch msg) w r w') :
    w'.last ch = msg := by
  rw [World.last, h.entry_of_edit hindex rfl]
  rfl

theorem log_push {msg : WrongthinkMessage} {r : Except Exn (Op.push ch msg).Result}
    (h : Op.Step (.push ch msg) w r w') (hindex : Indexed (.push ch msg) w r w') :
    w'.log ch = w.log ch ++ [msg] := by
  rw [World.log, h.entry_of_edit hindex rfl]
  rfl

end Op.Step

/-! ## The log -/

theorem Op.appended_mark_sql (q : Statement) (r : Except Exn q.Result) (ch : ℤ) :
    ((Op.mark (.sql q) r).filter (Mark.on ch)).toList.filterMap Mark.appended? = [] := by
  rw [List.filterMap_eq_nil_iff]
  intro k hk
  rw [Option.mem_toList, Option.filter_eq_some_iff] at hk
  cases q with
  | insertMessage user_id channel thread_id thread_child mtext =>
    cases r with
    | ok v =>
      rw [← Option.some.inj hk.1]
      rfl
    | error e => cases hk.1
  | _ => cases hk.1

theorem Op.Step.log_eq_of_ne_push {o : Op} {w w' : World b} {r : Except Exn o.Result} {ch : ℤ}
    (h : Op.Step o w r w') (ho : ∀ msg, o ≠ .push ch msg) : w'.log ch = w.log ch := by
  refine h.entry_eq (g := (·.msgVector_)) (fun _ _ ↦ rfl) fun f hf e ↦ ?_
  cases o with
  | push id msg =>
    cases hf
    exact absurd rfl (ho msg)
  | notifyAll id | wait id l | wake id l =>
    cases hf
    rfl
  | _ => cases hf

/-- A step that finds its entry appends to the log of `ch` what it marks there. -/
theorem Op.Step.log_eq {o : Op} {w w' : World b} {r : Except Exn o.Result}
    (h : Op.Step o w r w') (hindex : Indexed o w r w') (ch : ℤ) :
    w'.log ch = w.log ch ++ ((o.mark r).filter (Mark.on ch)).toList.filterMap Mark.appended? := by
  by_cases ho : ∃ msg, o = .push ch msg
  · obtain ⟨msg, rfl⟩ := ho
    obtain ⟨v, rfl⟩ := h.ok_of_not_store rfl
    rw [World.log, h.entry_of_edit hindex rfl]
    simp [mark, Mark.on, Mark.appended?, World.log, Option.filter]
  rw [h.log_eq_of_ne_push (not_exists.mp ho), List.self_eq_append_right]
  cases o with
  | push id msg =>
    have hid : id ≠ ch := fun hid ↦ ho ⟨msg, by rw [hid]⟩
    cases r <;> simp [mark, Mark.on, Option.filter, hid]
  | sql q => exact Op.appended_mark_sql q r ch
  | _ => rfl

/-! ## The last message -/

theorem wake_eq {id : ℤ} {k : ThreadId} {w w' : World b} {v : WrongthinkMessage}
    (h : Op.Step (.wake id k) w (.ok v) w') : v = w.last id := by
  obtain ⟨d, hr, _⟩ := h.ok
  exact Except.ok.inj hr

/-! ## The listeners -/

namespace Op.Step

variable {o : Op} {w w' : World b} {r : Except Exn o.Result} {ch : ℤ} {t : ThreadId}

theorem mem_waiters_wait {r : Except Exn (Op.wait ch t).Result} (h : Op.Step (.wait ch t) w r w')
    (hindex : Indexed (.wait ch t) w r w') : t ∈ w'.waiters ch := by
  rw [World.waiters, h.entry_of_edit hindex rfl]
  exact List.mem_cons_self

theorem not_mem_waiters_wake {r : Except Exn (Op.wake ch t).Result}
    (h : Op.Step (.wake ch t) w r w') (hindex : Indexed (.wake ch t) w r w') :
    t ∉ w'.waiters ch := by
  rw [World.waiters, h.entry_of_edit hindex rfl, SynchronizedChannel.mem_channelCondition_wake]
  exact fun hmem ↦ hmem.2 rfl

theorem waiters_notifyAll {r : Except Exn (Op.notifyAll ch).Result}
    (h : Op.Step (.notifyAll ch) w r w') (hindex : Indexed (.notifyAll ch) w r w') :
    w'.waiters ch = [] := by
  rw [World.waiters, h.entry_of_edit hindex rfl]
  rfl

/-- Nothing else unblocks a listener or blocks it. -/
theorem mem_waiters_iff (h : Op.Step o w r w') (hnotify : o ≠ .notifyAll ch)
    (hwait : o ≠ .wait ch t) (hwake : o ≠ .wake ch t) : t ∈ w'.waiters ch ↔ t ∈ w.waiters ch := by
  have heq : (t ∈ w'.waiters ch) = (t ∈ w.waiters ch) := by
    refine h.entry_eq (g := (t ∈ ·.channelCondition_)) (fun _ _ ↦ rfl) fun f hf e ↦ ?_
    cases o with
    | push id msg =>
      cases hf
      rfl
    | notifyAll id =>
      cases hf
      exact absurd rfl hnotify
    | wait id l =>
      cases hf
      have hl : t ≠ l := fun hl ↦ hwait (by rw [hl])
      simp [hl]
    | wake id l =>
      cases hf
      have hl : t ≠ l := fun hl ↦ hwake (by rw [hl])
      simp [hl]
    | _ => cases hf
  rw [heq]

end Op.Step

/-! ## The handlers find their entries -/

/-- The entry that an action uses. `channelMap[id]` would make an empty one, were there none. -/
def Op.uses : Op → Option ℤ
  | index id | push id _ | notifyAll id | wait id _ | wake id _ => some id
  | _ => none

/-- An action finds the entry it uses. -/
def Present (o : Op) (w : World b) (_ : Except Exn o.Result) (_ : World b) : Prop :=
  ∀ id, o.uses = some id → (w.channelMap id).isSome

theorem Op.uses_of_edit {o : Op} {id : ℤ}
    {f : SynchronizedChannel ThreadId → SynchronizedChannel ThreadId} (ho : o.edit = some (id, f)) :
    o.uses = some id := by
  cases o with
  | push _ _ | notifyAll _ | wait _ _ | wake _ _ =>
    cases ho
    rfl
  | _ => cases ho

theorem Present.indexed {o : Op} {w w' : World b} {r : Except Exn o.Result}
    (h : Present o w r w') : Indexed o w r w' := fun id _ ho ↦ h id (Op.uses_of_edit ho)

theorem Op.uses_eq_none_of_channel {o : Op} (ho : o.channel = none) : o.uses = none := by
  cases o with
  | index _ | push _ _ | notifyAll _ | wait _ _ | wake _ _ => cases ho
  | _ => rfl

theorem present_of_uses_none {o : Op} (ho : o.uses = none) (w : World b) (r : Except Exn o.Result)
    (w' : World b) : Present o w r w' := by
  intro id huses
  rw [ho] at huses
  cases huses

/-- A program that finds the entries it uses, and establishes `Q`. -/
abbrev Finding {α : Type} (p : Routine α) (Q : World b → Prop) (w : World b) : Prop :=
  p.Safe Op.Step World.Grows Present (fun _ ↦ Q) (fun _ _ ↦ True) w

variable {α : Type} {Q : World b → Prop} {w : World b} {id : ℤ}

theorem finding_bind {o : Op} {f : o.Result → Routine α} (ho : o.uses = none)
    (hf : ∀ v (w' : World b), Finding (f v) Q w') : Finding (perform o >>= f) Q w :=
  Prog.Safe.perform_bind (fun _ _ _ _ _ ↦ present_of_uses_none ho _ _ _)
    (fun _ _ v w' _ ↦ hf v w') (fun _ _ _ _ _ _ _ ↦ trivial)

theorem finding_bind_of_uses {o : Op} {f : o.Result → Routine α} (ho : o.uses = some id)
    (hid : (w.channelMap id).isSome)
    (hf : ∀ v (w' : World b), (w'.channelMap id).isSome → Finding (f v) Q w') :
    Finding (perform o >>= f) Q w := by
  refine Prog.Safe.perform_bind (fun w' hle _ _ _ id' ho' ↦ ?_)
    (fun w' hle v w'' h ↦ hf v w'' (h.grows.isSome (hle.isSome hid))) (fun _ _ _ _ _ _ _ ↦ trivial)
  rw [ho, Option.some.injEq] at ho'
  rw [← ho']
  exact hle.isSome hid

theorem Op.Step.isSome_of_count {w w' : World b} {n : ℕ} (h : Op.Step (.count id) w (.ok n) w')
    (hn : n = 1) : (w'.channelMap id).isSome := by
  obtain ⟨d, hr, rfl⟩ := h.ok
  rw [Op.exec, Except.ok.injEq, hn] at hr
  change ((w.drift d).channelMap id).isSome
  by_contra hnone
  rw [if_neg hnone] at hr
  cases hr

/-- After `emplace` there is an entry, whether or not it is the one that was offered. -/
theorem Op.Step.isSome_of_emplace {w w' : World b} {name : String} {v : Unit}
    (h : Op.Step (.emplace id name) w (.ok v) w') : (w'.channelMap id).isSome := by
  obtain ⟨d, _, rfl⟩ := h.ok
  rw [Op.exec, World.channelMap_insertNew_self]
  rfl

/-- The count, the lookup and the `emplace` leave an entry behind, whoever runs between them. -/
theorem cacheChannel_finding (channelid : ℤ) (w : World b) :
    Finding (cacheChannel channelid) (fun w' ↦ (w'.channelMap channelid).isSome) w := by
  refine Prog.Safe.perform_bind (fun _ _ _ _ _ ↦ present_of_uses_none rfl _ _ _)
    (fun w₁ _ n w₂ hcount ↦ ?_) (fun _ _ _ _ _ _ _ ↦ trivial)
  by_cases hn : n = 1
  · rw [if_neg (not_not.mpr hn)]
    intro w₃ hle
    exact hle.isSome (hcount.isSome_of_count hn)
  · rw [if_pos hn]
    refine finding_bind rfl fun name w₃ ↦ ?_
    exact Prog.Safe.perform (fun _ _ _ _ _ ↦ present_of_uses_none rfl _ _ _)
      (fun _ _ _ _ hemplace _ hle ↦ hle.isSome hemplace.isSome_of_emplace)
      (fun _ _ _ _ _ _ _ ↦ trivial)

theorem sendOne_finding (msg : WrongthinkMessage) (w : World b) :
    Finding (sendOne msg) (fun _ ↦ True) w := by
  refine (cacheChannel_finding msg.channelid w).bind fun _ w₁ h₁ ↦ ?_
  rw [appendMessage, Prog.bind_assoc]
  refine finding_bind_of_uses rfl h₁ fun _ w₂ h₂ ↦ ?_
  rw [Prog.bind_assoc]
  refine finding_bind_of_uses rfl h₂ fun _ w₃ h₃ ↦ ?_
  refine finding_bind_of_uses rfl h₃ fun _ w₄ _ ↦ ?_
  exact Prog.Safe.perform (fun _ _ _ _ _ ↦ present_of_uses_none rfl _ _ _)
    (fun _ _ _ _ _ _ _ ↦ trivial) (fun _ _ _ _ _ _ _ ↦ trivial)

theorem sendLoop_finding (ms : List WrongthinkMessage) (w : World b) :
    Finding (sendLoop ms) (fun _ ↦ True) w := by
  induction ms generalizing w with
  | nil => exact fun _ _ ↦ trivial
  | cons m ms ih =>
    rw [sendLoop_cons]
    exact (sendOne_finding m w).bind fun _ w' _ ↦ ih w'

theorem listenLoop_finding (channelid : ℤ) (l : ThreadId) (turns : ℕ) {w : World b}
    (h : (w.channelMap channelid).isSome) :
    Finding (listenLoop channelid l turns) (fun _ ↦ True) w := by
  induction turns generalizing w with
  | zero => exact fun _ _ ↦ trivial
  | succ turns ih =>
    refine finding_bind_of_uses rfl h fun _ w₁ h₁ ↦ ?_
    refine finding_bind_of_uses rfl h₁ fun msg w₂ h₂ ↦ ?_
    refine Prog.Safe.perform_bind (fun _ _ _ _ _ ↦ present_of_uses_none rfl _ _ _)
      (fun w₃ hle _ w₄ hwrite ↦ ?_) (fun _ _ _ _ _ _ _ ↦ trivial)
    exact ih (hwrite.grows.isSome (hle.isSome h₂))

/-- **Every handler finds the entries it uses.** -/
theorem handle_finding (r : Request) (w : World b) : Finding r.handle (fun _ ↦ True) w := by
  cases hr : r.onChannel with
  | false =>
    refine Prog.Safe.of_only (fun _ _ _ _ ↦ trivial) (fun o w₁ r w₂ ho _ h ↦ ?_)
      (r.handle_aside hr) trivial
    exact ⟨present_of_uses_none (Op.uses_eq_none_of_channel ho.2) w₁ r w₂, h.grows⟩
  | true =>
    by_cases hsend : r.target = some .message
    · rw [Request.handle_of_target_message hsend]
      exact safe_caught (finding_bind rfl fun _ w' ↦ sendLoop_finding _ w')
    · cases r with
      | ListenWrongthinkMessages channelid l turns =>
        rw [handle_listen]
        refine finding_bind rfl fun _ w₁ ↦ ?_
        refine (cacheChannel_finding channelid w₁).bind fun _ w₂ h₂ ↦ ?_
        refine finding_bind_of_uses rfl h₂ fun _ w₃ h₃ ↦ ?_
        exact (listenLoop_finding channelid l turns h₃).bind fun _ _ _ _ _ ↦ trivial
      | SendWrongthinkMessageWeb msg | SendWrongthinkMessage reader => exact absurd rfl hsend
      | _ => cases hr

abbrev Indexing {α : Type} (p : Routine α) (w : World b) : Prop :=
  p.Safe Op.Step World.Grows Indexed (fun _ _ ↦ True) (fun _ _ ↦ True) w

theorem handle_indexing (r : Request) (w : World b) : Indexing r.handle w :=
  (handle_finding r w).mono fun _ _ _ _ h ↦ h.indexed

section Runs

variable {ι : Type} [DecidableEq ι] {c c' : Pool ι Op Op.Result Exn Reply (World b)}
  {l : List (ι × Action b)} {i : ι} {r : Request}

theorem present_of_view (hthread : c.thread i = r.handle) (h : Pool.Steps Op.Step c l c') :
    ∀ e ∈ view i l, Present e.op e.before e.result e.after := by
  have hfinding := handle_finding r c.state
  rw [← hthread] at hfinding
  exact (h.safe_thread (fun _ _ _ _ hs ↦ hs.grows) hfinding).2

theorem indexed_of_view (hthread : c.thread i = r.handle) (h : Pool.Steps Op.Step c l c') :
    ∀ e ∈ view i l, Indexed e.op e.before e.result e.after :=
  fun e he ↦ (present_of_view hthread h e he).indexed

end Runs

end Wrongthink
