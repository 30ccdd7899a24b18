import Wrongthink.Channels.Entries
import Wrongthink.Concurrent.Phase
import Wrongthink.Concurrent.Wakeup

/-!
# A listener among the senders

What one listener of a channel goes through, in any pool of handlers, is a run of the reader of
`Concurrent.Wakeup`: the appends to its channel are the appends it may hear, the `notify_all` calls
wake it, and its own three actions are the reader's (`Follows.step`). Threads are known by their
`ThreadId`, so a listener waits under the number of its own thread.

A condition variable may also let a thread go that nobody has notified. That is left out here: a
`NotifiedStep` lets a thread return from the wait only after a notification.
-/

namespace Wrongthink

open Concurrent WrongthinkServiceImpl

variable {b : Backend}

/-! ## Phases of a handler -/

/-- What the last action obliges a handler to do next. -/
inductive Phase where
  | idle
  /-- It has appended to the channel and not yet notified. -/
  | pushed (id : ℤ)
  /-- It has called `wait`. -/
  | waiting
  /-- It has returned from the wait with this message. -/
  | holding (msg : WrongthinkMessage)
  deriving DecidableEq

/-- The phase after an action. -/
def Op.next : (o : Op) → Except Exn o.Result → Phase
  | push id _, _ => .pushed id
  | wait _ _, _ => .waiting
  | wake _ _, .ok msg => .holding msg
  | _, _ => .idle

/-- What a handler does in each phase, where it listens on the channel and under the number `x`. -/
def Phase.Allows (x : Option (ℤ × ThreadId)) : Phase → Op → Prop
  | idle, .push id msg => x = none ∧ msg.channelid = id
  | idle, .wait id t => x = some (id, t)
  | idle, .notifyAll _ => False
  | idle, .wake _ _ => False
  | idle, .write _ => x = none
  | idle, _ => True
  | pushed id, o => x = none ∧ o = .notifyAll id
  | waiting, o => ∃ id t, x = some (id, t) ∧ o = .wake id t
  | holding msg, o => o = .write msg

/-- The channel that a request listens on, and under which number. -/
def Request.listens : Request → Option (ℤ × ThreadId)
  | ListenWrongthinkMessages channelid l _ => some (channelid, l)
  | _ => none

variable {x : Option (ℤ × ThreadId)}

/-- The program goes through the phases of a handler and is idle at its end. -/
abbrev Phasing {α : Type} (x : Option (ℤ × ThreadId)) (p : Routine α) (s : Phase) : Prop :=
  p.Phased Op.next (Phase.Allows x) (· = .idle) s

theorem cacheChannel_phasing (channelid : ℤ) : Phasing x (cacheChannel channelid) .idle := by
  refine Prog.phased_perform_bind trivial fun n ↦ ?_
  split
  · refine Prog.phased_perform_bind trivial fun name ↦ ?_
    exact Prog.phased_perform trivial fun _ ↦ rfl
  · exact rfl

theorem sendOne_phasing (msg : WrongthinkMessage) : Phasing none (sendOne msg) .idle := by
  refine (cacheChannel_phasing msg.channelid).bind ?_
  rintro _ _ rfl
  rw [appendMessage, Prog.bind_assoc]
  refine Prog.phased_perform_bind trivial fun _ ↦ ?_
  rw [Prog.bind_assoc]
  refine Prog.phased_perform_bind ⟨rfl, rfl⟩ fun _ ↦ ?_
  refine Prog.phased_perform_bind ⟨rfl, rfl⟩ fun _ ↦ ?_
  exact Prog.phased_perform trivial fun _ ↦ rfl

theorem sendLoop_phasing (reader : List WrongthinkMessage) :
    Phasing none (sendLoop reader) .idle := by
  induction reader with
  | nil => exact rfl
  | cons msg reader ih =>
    rw [sendLoop_cons]
    refine (sendOne_phasing msg).bind ?_
    rintro _ _ rfl
    exact ih

theorem listenLoop_phasing (channelid : ℤ) (l : ThreadId) (turns : ℕ) :
    Phasing (some (channelid, l)) (listenLoop channelid l turns) .idle := by
  induction turns with
  | zero => exact rfl
  | succ turns ih =>
    refine Prog.phased_perform_bind rfl fun _ ↦ ?_
    refine Prog.phased_perform_bind ⟨channelid, l, rfl, rfl⟩ fun msg ↦ ?_
    exact Prog.phased_perform_bind rfl fun _ ↦ ih

/-- The `catch` may come in any phase, but answers at once. -/
theorem phased_caught {α : Type} {f : α → Response} {none : α} {p : Routine (Status × α)}
    {s : Phase} (hp : Phasing x p s) :
    (caught f none p).Phased Op.next (Phase.Allows x) (fun _ ↦ True) s := by
  have hp' : p.Phased Op.next (Phase.Allows x) (fun _ ↦ True) s := hp.mono fun _ _ ↦ trivial
  have hcaught : (orInternal none p).Phased Op.next (Phase.Allows x) (fun _ ↦ True) s :=
    hp'.tryCatch fun _ _ ↦ trivial
  exact hcaught.bind fun _ _ _ ↦ trivial

/-- **Phases.** Every handler keeps to them. -/
theorem handle_phased (r : Request) :
    r.handle.Phased Op.next (Phase.Allows r.listens) (fun _ ↦ True) .idle := by
  cases hr : r.onChannel with
  | false =>
    -- away from the channels nobody notifies or waits
    have hlistens : r.listens = none := by
      cases r with
      | ListenWrongthinkMessages channelid l turns => cases hr
      | _ => rfl
    have hphased : Phasing r.listens r.handle .idle := by
      refine Prog.Phased.of_only (fun o ho ↦ ?_) (r.handle_aside hr)
      cases o with
      | write _ => exact ⟨hlistens, fun _ ↦ rfl⟩
      | push _ _ | notifyAll _ | wait _ _ | wake _ _ => cases ho.2
      | _ => exact ⟨trivial, fun _ ↦ rfl⟩
    exact hphased.mono fun _ _ ↦ trivial
  | true =>
    by_cases hsend : r.target = some .message
    · have hlistens : r.listens = none := by
        cases r with
        | ListenWrongthinkMessages channelid l turns => cases hsend
        | _ => rfl
      rw [Request.handle_of_target_message hsend, hlistens]
      exact phased_caught (Prog.phased_perform_bind trivial fun _ ↦ sendLoop_phasing _)
    · cases r with
      | ListenWrongthinkMessages channelid l turns =>
        rw [handle_listen]
        refine Prog.phased_perform_bind trivial fun _ ↦ ?_
        refine (cacheChannel_phasing channelid).bind ?_
        rintro _ _ rfl
        refine Prog.phased_perform_bind trivial fun _ ↦ ?_
        exact (listenLoop_phasing channelid l turns).bind fun _ _ _ ↦ trivial
      | SendWrongthinkMessageWeb msg | SendWrongthinkMessage reader => exact absurd rfl hsend
      | _ => cases hr

/-! ## What a listener is owed and what it gets -/

/-- The message that an action appends to the channel `ch`. -/
def Op.appended (ch : ℤ) : Op → Option WrongthinkMessage
  | push id msg => if id = ch then some msg else none
  | _ => none

/-- The message that an action writes to the stream. -/
def Op.written : Op → Option WrongthinkMessage
  | write msg => some msg
  | _ => none

def Op.isWait : Op → Bool
  | wait _ _ => true
  | _ => false

section Accounts

variable (t : ThreadId) (ch : ℤ) (l : List (ThreadId × Action b))

/-- The phase of a thread. -/
def phase : Phase := phaseAfter Op.next .idle (view t l)

/-- The messages written to the stream of the listener. -/
def written : List WrongthinkMessage := (view t l).filterMap (·.op.written)

/-- All actions from the first time that the listener blocks. -/
def since : List (Action b) :=
  (l.dropWhile fun x ↦ !(decide (x.1 = t) && x.2.op.isWait)).map Prod.snd

/-- The messages appended to the channel since the listener first blocked. -/
def appendedSince : List WrongthinkMessage := (since t l).filterMap (·.op.appended ch)

/-- How many of them found it blocked. -/
def heardSince : ℕ :=
  (since t l).countP fun e ↦ (e.op.appended ch).isSome ∧ t ∈ e.before.waiters ch

variable {t ch l}

theorem phase_snoc_self (e : Action b) : phase t (l ++ [(t, e)]) = e.op.next e.result :=
  phaseAfter_snoc_self t e

theorem phase_snoc_of_ne {j : ThreadId} (h : j ≠ t) (e : Action b) :
    phase t (l ++ [(j, e)]) = phase t l := phaseAfter_snoc_of_ne h e

theorem written_snoc_self (e : Action b) :
    written t (l ++ [(t, e)]) = written t l ++ e.op.written.toList := by
  rw [written, view_append, view_cons_self, view_nil, List.filterMap_append, written]
  cases h : e.op.written <;> simp [h]

theorem written_snoc_of_ne {j : ThreadId} (h : j ≠ t) (e : Action b) :
    written t (l ++ [(j, e)]) = written t l := by
  rw [written, view_append, view_cons_of_ne h, view_nil, List.append_nil, written]

theorem since_snoc (x : ThreadId × Action b) :
    since t (l ++ [x]) =
      since t l ++ if since t l ≠ [] ∨ (x.1 = t ∧ x.2.op.isWait) then [x.2] else [] := by
  rw [since, since, List.dropWhile_append]
  cases hdrop : l.dropWhile fun x ↦ !(decide (x.1 = t) && x.2.op.isWait) with
  | nil => by_cases hx : x.1 = t <;> cases hw : x.2.op.isWait <;> simp [hx, hw]
  | cons y ys => simp

/-- A wait appends nothing, so what is appended counts only once the listener has blocked. -/
theorem appendedSince_snoc (x : ThreadId × Action b) :
    appendedSince t ch (l ++ [x]) = appendedSince t ch l ++
      if since t l ≠ [] then (x.2.op.appended ch).toList else [] := by
  rw [appendedSince, since_snoc, List.filterMap_append, appendedSince]
  by_cases hsince : since t l = []
  · cases hop : x.2.op <;> by_cases hx : x.1 = t <;> simp [hsince, hop, hx, Op.isWait, Op.appended]
  · cases happ : x.2.op.appended ch <;> simp [hsince, happ]

theorem heardSince_snoc (x : ThreadId × Action b) :
    heardSince t ch (l ++ [x]) = heardSince t ch l +
      if since t l ≠ [] ∧ (x.2.op.appended ch).isSome ∧ t ∈ x.2.before.waiters ch then 1
      else 0 := by
  rw [heardSince, since_snoc, List.countP_append, heardSince]
  by_cases hsince : since t l = []
  · cases hop : x.2.op <;> by_cases hx : x.1 = t <;> simp [hsince, hop, hx, Op.isWait, Op.appended]
  · simp [hsince, List.countP_cons]

theorem appendedSince_snoc_of_none {x : ThreadId × Action b} (hx : x.2.op.appended ch = none) :
    appendedSince t ch (l ++ [x]) = appendedSince t ch l := by
  rw [appendedSince_snoc, hx]
  simp

theorem heardSince_snoc_of_none {x : ThreadId × Action b} (hx : x.2.op.appended ch = none) :
    heardSince t ch (l ++ [x]) = heardSince t ch l := by
  rw [heardSince_snoc, hx]
  simp

theorem since_snoc_ne_nil_iff {x : ThreadId × Action b} (hx : x.1 = t → x.2.op.isWait = false) :
    since t (l ++ [x]) ≠ [] ↔ since t l ≠ [] := by
  rw [since_snoc]
  by_cases hxt : x.1 = t
  · simp [hxt, hx hxt]
  · simp [hxt]

end Accounts

/-! ## The simulation -/

/-- The thread that an action lets return from its wait, and on which channel. -/
def Op.woken : Op → Option (ℤ × ThreadId)
  | wake id t => some (id, t)
  | _ => none

/-- A return from the wait that nobody has asked for. -/
def Spurious (o : Op) (w : World b) : Prop := ∃ x ∈ o.woken, x.2 ∈ w.waiters x.1

instance (o : Op) (w : World b) : Decidable (Spurious o w) :=
  inferInstanceAs (Decidable (∃ x ∈ o.woken, _))

/-- A step that is none. -/
def NotifiedStep : Semantics Op Op.Result Exn (World b) := fun o w r w' ↦
  Op.Step o w r w' ∧ ¬Spurious o w

/-- Where a listener is, by its phase and by whether it is among the blocked. -/
def Phase.mode (blocked : Bool) : Phase → Mode WrongthinkMessage
  | waiting => if blocked then .blocked else .woken
  | holding msg => .holding msg
  | _ => .away

/-- The action appends to the channel `ch`, notifies it, or is a listener's `t` on it. -/
def Op.concerns (t : ThreadId) (ch : ℤ) : Op → Bool
  | push id _ => id = ch
  | notifyAll id => id = ch
  | wait id k => id = ch ∧ k = t
  | wake id k => id = ch ∧ k = t
  | _ => false

theorem Op.Step.of_not_concerns {o : Op} {w w' : World b} {r : Except Exn o.Result} {t : ThreadId}
    {ch : ℤ} (hs : Op.Step o w r w') (ho : o.concerns t ch = false) :
    (t ∈ w'.waiters ch ↔ t ∈ w.waiters ch) ∧ w'.last ch = w.last ch ∧ o.appended ch = none := by
  refine ⟨hs.mem_waiters_iff ?_ ?_ ?_, hs.last_eq ?_, ?_⟩
  · rintro rfl
    simp [concerns] at ho
  · rintro rfl
    simp [concerns] at ho
  · rintro rfl
    simp [concerns] at ho
  · rintro msg rfl
    simp [concerns] at ho
  · cases o with
    | push id msg => exact if_neg (of_decide_eq_false ho)
    | _ => rfl

theorem Op.eq_push_of_next {o : Op} {r : Except Exn o.Result} {ch : ℤ}
    (h : o.next r = .pushed ch) : ∃ msg, o = .push ch msg := by
  cases o with
  | push id msg => exact ⟨msg, by rw [Phase.pushed.inj h]⟩
  | wake id k => cases r <;> cases h
  | _ => cases h

/-- The reader `s` accounts for what the listener `t` of `ch` has gone through in the events `l`. -/
structure Follows (t : ThreadId) (ch : ℤ) (l : List (ThreadId × Action b)) (w : World b)
    (s : Listener ThreadId WrongthinkMessage) : Prop where
  mode : s.mode = (phase t l).mode (t ∈ w.waiters ch)
  started : s.started = true ↔ since t l ≠ []
  last : s.last = w.last ch
  pending : ∀ j, j ∈ s.pending ↔ phase j l = .pushed ch
  appended : s.appended = appendedSince t ch l
  heard : s.heard = heardSince t ch l
  written : s.written = written t l
  /-- Only a listener that is waiting is among the blocked, -/
  waiting : t ∈ w.waiters ch → phase t l = .waiting
  /-- and only one that has blocked before is waiting. -/
  begun : phase t l = .waiting → since t l ≠ []

theorem follows_init {t : ThreadId} {ch : ℤ} {w : World b} (h : t ∉ w.waiters ch) :
    Follows t ch [] w (.init (w.last ch)) := by
  refine ⟨rfl, ?_, rfl, fun j ↦ ?_, rfl, rfl, rfl, fun hmem ↦ absurd hmem h, nofun⟩
  · exact ⟨nofun, fun hne ↦ absurd rfl hne⟩
  · exact ⟨fun hj ↦ absurd hj (Set.notMem_empty j), nofun⟩

namespace Follows

variable {t j : ThreadId} {ch : ℤ} {l : List (ThreadId × Action b)} {w w' : World b}
  {s : Listener ThreadId WrongthinkMessage} {o : Op} {r : Except Exn o.Result}

/-- An action that is not the listener's and neither appends to its channel nor notifies it. -/
theorem stutter (h : Follows t ch l w s) (hj : j ≠ t) (hs : Op.Step o w r w')
    (hphase : phase j l ≠ .pushed ch) (ho : o.concerns t ch = false) :
    Follows t ch (l ++ [(j, ⟨w, o, r, w'⟩)]) w' s := by
  obtain ⟨hwaiters, hlast, happended⟩ := hs.of_not_concerns ho
  have hsince : since t (l ++ [(j, ⟨w, o, r, w'⟩)]) ≠ [] ↔ since t l ≠ [] :=
    since_snoc_ne_nil_iff fun heq ↦ absurd heq hj
  refine ⟨?_, ?_, ?_, fun i ↦ ?_, ?_, ?_, ?_, fun hmem ↦ ?_, fun hp ↦ ?_⟩
  · rw [phase_snoc_of_ne hj, h.mode]
    simp only [hwaiters]
  · rw [hsince]
    exact h.started
  · rw [h.last, hlast]
  · by_cases hi : j = i
    · subst hi
      rw [phase_snoc_self, h.pending]
      refine ⟨fun hp ↦ absurd hp hphase, fun hp ↦ ?_⟩
      obtain ⟨msg, rfl⟩ := Op.eq_push_of_next hp
      simp [Op.concerns] at ho
    · rw [phase_snoc_of_ne hi]
      exact h.pending i
  · rw [appendedSince_snoc_of_none happended, h.appended]
  · rw [heardSince_snoc_of_none happended, h.heard]
  · rw [written_snoc_of_ne hj, h.written]
  · rw [phase_snoc_of_ne hj]
    exact h.waiting (hwaiters.mp hmem)
  · rw [phase_snoc_of_ne hj] at hp
    exact hsince.mpr (h.begun hp)

theorem pending_snoc_self (h : Follows t ch l w s) {e : Action b} (hphase : phase t l ≠ .pushed ch)
    (hphase' : phase t (l ++ [(t, e)]) ≠ .pushed ch) (i : ThreadId) :
    i ∈ s.pending ↔ phase i (l ++ [(t, e)]) = .pushed ch := by
  by_cases hi : t = i
  · subst hi
    rw [h.pending]
    exact ⟨fun hp ↦ absurd hp hphase, fun hp ↦ absurd hp hphase'⟩
  · rw [phase_snoc_of_ne hi]
    exact h.pending i

theorem stutter_self (h : Follows t ch l w s) (hs : Op.Step o w r w') (hphase : phase t l = .idle)
    (hnext : o.next r = .idle) (hwritten : o.written = none) (hwait : o.isWait = false)
    (ho : o.concerns t ch = false) : Follows t ch (l ++ [(t, ⟨w, o, r, w'⟩)]) w' s := by
  obtain ⟨hwaiters, hlast, happended⟩ := hs.of_not_concerns ho
  have hsince : since t (l ++ [(t, ⟨w, o, r, w'⟩)]) ≠ [] ↔ since t l ≠ [] :=
    since_snoc_ne_nil_iff fun _ ↦ hwait
  have hphase' : phase t (l ++ [(t, ⟨w, o, r, w'⟩)]) = phase t l := by
    rw [phase_snoc_self, hphase]
    exact hnext
  refine ⟨?_, ?_, ?_, fun i ↦ ?_, ?_, ?_, ?_, fun hmem ↦ ?_, fun hp ↦ ?_⟩
  · rw [hphase', h.mode]
    simp only [hwaiters]
  · rw [hsince]
    exact h.started
  · rw [h.last, hlast]
  · refine h.pending_snoc_self ?_ ?_ i
    · rw [hphase]
      simp
    · rw [hphase', hphase]
      simp
  · rw [appendedSince_snoc_of_none happended, h.appended]
  · rw [heardSince_snoc_of_none happended, h.heard]
  · rw [written_snoc_self, h.written, hwritten]
    simp
  · rw [hphase']
    exact h.waiting (hwaiters.mp hmem)
  · rw [hphase'] at hp
    exact hsince.mpr (h.begun hp)

theorem isBlocked_iff (h : Follows t ch l w s) :
    s.mode.isBlocked ↔ since t l ≠ [] ∧ t ∈ w.waiters ch := by
  rw [h.mode]
  by_cases hmem : t ∈ w.waiters ch
  · have hphase := h.waiting hmem
    simp [hmem, hphase, Phase.mode, Mode.isBlocked, h.begun hphase]
  · cases phase t l <;> simp [hmem, Phase.mode, Mode.isBlocked]

theorem append {msg : WrongthinkMessage} {r : Except Exn (Op.push ch msg).Result}
    (h : Follows t ch l w s) (hj : j ≠ t) (hs : Op.Step (.push ch msg) w r w')
    (hindex : Indexed (.push ch msg) w r w') :
    Follows t ch (l ++ [(j, ⟨w, .push ch msg, r, w'⟩)]) w' ((Signal.append j msg).apply s) := by
  have hwaiters : t ∈ w'.waiters ch ↔ t ∈ w.waiters ch := by
    exact hs.mem_waiters_iff (by simp) (by simp) (by simp)
  have hsince : since t (l ++ [(j, ⟨w, .push ch msg, r, w'⟩)]) ≠ [] ↔ since t l ≠ [] :=
    since_snoc_ne_nil_iff fun heq ↦ absurd heq hj
  have happended : (Op.push ch msg).appended ch = some msg := if_pos rfl
  -- owed to a listener that has begun to wait, and heard if it is still blocked
  refine ⟨?_, ?_, (hs.last_push hindex).symm, fun i ↦ ?_, ?_, ?_, ?_, fun hmem ↦ ?_, fun hp ↦ ?_⟩
  · rw [phase_snoc_of_ne hj]
    simp only [hwaiters]
    exact h.mode
  · rw [hsince]
    exact h.started
  · have hmem : i ∈ ((Signal.append j msg).apply s).pending ↔ i = j ∨ i ∈ s.pending := Iff.rfl
    rw [hmem]
    by_cases hi : j = i
    · subst hi
      rw [phase_snoc_self]
      exact ⟨fun _ ↦ rfl, fun _ ↦ .inl rfl⟩
    · rw [phase_snoc_of_ne hi, h.pending i, or_iff_right (Ne.symm hi)]
  · rw [appendedSince_snoc, happended, ← h.appended]
    simp only [Signal.apply, h.started]
    split <;> simp
  · rw [heardSince_snoc, ← h.heard]
    simp only [Signal.apply, h.isBlocked_iff, happended]
    by_cases hb : since t l ≠ [] ∧ t ∈ w.waiters ch <;> simp [hb]
  · rw [written_snoc_of_ne hj]
    exact h.written
  · rw [phase_snoc_of_ne hj]
    exact h.waiting (hwaiters.mp hmem)
  · rw [phase_snoc_of_ne hj] at hp
    exact hsince.mpr (h.begun hp)

theorem notify {r : Except Exn (Op.notifyAll ch).Result} (h : Follows t ch l w s) (hj : j ≠ t)
    (hs : Op.Step (.notifyAll ch) w r w') (hindex : Indexed (.notifyAll ch) w r w') :
    Follows t ch (l ++ [(j, ⟨w, .notifyAll ch, r, w'⟩)]) w' ((Signal.notify j).apply s) := by
  have hnil : w'.waiters ch = [] := hs.waiters_notifyAll hindex
  have hsince : since t (l ++ [(j, ⟨w, .notifyAll ch, r, w'⟩)]) ≠ [] ↔ since t l ≠ [] :=
    since_snoc_ne_nil_iff fun heq ↦ absurd heq hj
  -- a blocked listener is let go, and any other stays in its mode
  have hmode : s.mode.notified = (phase t l).mode false := by
    rw [h.mode]
    by_cases hmem : t ∈ w.waiters ch <;> cases phase t l <;> simp [Phase.mode, Mode.notified, hmem]
  refine ⟨?_, ?_, ?_, fun i ↦ ?_, ?_, ?_, ?_, fun hmem ↦ ?_, fun hp ↦ ?_⟩
  · rw [phase_snoc_of_ne hj, hnil]
    exact hmode
  · rw [hsince]
    exact h.started
  · have hlast : s.last = w'.last ch := by
      rw [h.last, hs.last_eq (by simp)]
    exact hlast
  · have hmem : i ∈ ((Signal.notify j).apply s).pending ↔ i ∈ s.pending ∧ i ≠ j := Iff.rfl
    rw [hmem]
    by_cases hi : j = i
    · subst hi
      rw [phase_snoc_self]
      exact ⟨fun hp ↦ absurd rfl hp.2, nofun⟩
    · rw [phase_snoc_of_ne hi, h.pending i, and_iff_left (Ne.symm hi)]
  · rw [appendedSince_snoc_of_none rfl]
    exact h.appended
  · rw [heardSince_snoc_of_none rfl]
    exact h.heard
  · rw [written_snoc_of_ne hj]
    exact h.written
  · rw [hnil] at hmem
    simp at hmem
  · rw [phase_snoc_of_ne hj] at hp
    exact hsince.mpr (h.begun hp)

theorem wait {r : Except Exn (Op.wait ch t).Result} (h : Follows t ch l w s)
    (hs : Op.Step (.wait ch t) w r w') (hindex : Indexed (.wait ch t) w r w')
    (hphase : phase t l = .idle) :
    Follows t ch (l ++ [(t, ⟨w, .wait ch t, r, w'⟩)]) w' (Signal.wait.apply s) := by
  have hmem : t ∈ w'.waiters ch := hs.mem_waiters_wait hindex
  have hphase' : phase t (l ++ [(t, ⟨w, .wait ch t, r, w'⟩)]) = .waiting := phase_snoc_self _
  have hsince : since t (l ++ [(t, ⟨w, .wait ch t, r, w'⟩)]) ≠ [] := by
    rw [since_snoc]
    simp [Op.isWait]
  refine ⟨?_, ⟨fun _ ↦ hsince, fun _ ↦ rfl⟩, ?_, fun i ↦ ?_, ?_, ?_, ?_, fun _ ↦ hphase',
    fun _ ↦ hsince⟩
  · rw [hphase']
    simp [Phase.mode, Signal.apply, hmem]
  · have hlast : s.last = w'.last ch := by
      rw [h.last, hs.last_eq (by simp)]
    exact hlast
  · refine h.pending_snoc_self ?_ ?_ i
    · rw [hphase]
      simp
    · rw [hphase']
      simp
  · rw [appendedSince_snoc_of_none rfl]
    exact h.appended
  · rw [heardSince_snoc_of_none rfl]
    exact h.heard
  · rw [written_snoc_self, ← h.written]
    simp [Signal.apply, Op.written]

theorem wake {v : WrongthinkMessage} (h : Follows t ch l w s)
    (hs : Op.Step (.wake ch t) w (.ok v) w')
    (hindex : Indexed (.wake ch t) w (.ok v) w') (hphase : phase t l = .waiting) :
    Follows t ch (l ++ [(t, ⟨w, .wake ch t, .ok v, w'⟩)]) w' (Signal.wake.apply s) := by
  have hmem : t ∉ w'.waiters ch := hs.not_mem_waiters_wake hindex
  have hphase' : phase t (l ++ [(t, ⟨w, .wake ch t, .ok v, w'⟩)]) = .holding v := phase_snoc_self _
  have hlast : s.last = w'.last ch := by
    rw [h.last, hs.last_eq (by simp)]
  -- it is handed `lastMessage_`, whatever has woken it
  have hv : v = s.last := by
    obtain ⟨d, hr, _⟩ := hs.ok
    rw [h.last]
    exact Except.ok.inj hr
  have hsince : since t (l ++ [(t, ⟨w, .wake ch t, .ok v, w'⟩)]) ≠ [] ↔ since t l ≠ [] :=
    since_snoc_ne_nil_iff fun _ ↦ rfl
  refine ⟨?_, ?_, hlast, fun i ↦ ?_, ?_, ?_, ?_, fun hw ↦ absurd hw hmem, fun hp ↦ ?_⟩
  · rw [hphase', hv]
    rfl
  · rw [hsince]
    exact h.started
  · refine h.pending_snoc_self ?_ ?_ i
    · rw [hphase]
      simp
    · rw [hphase']
      simp
  · rw [appendedSince_snoc_of_none rfl]
    exact h.appended
  · rw [heardSince_snoc_of_none rfl]
    exact h.heard
  · rw [written_snoc_self, ← h.written]
    simp [Signal.apply, Op.written]
  · rw [hphase'] at hp
    cases hp

theorem write {msg : WrongthinkMessage} {r : Except Exn (Op.write msg).Result}
    (h : Follows t ch l w s) (hs : Op.Step (.write msg) w r w')
    (hphase : phase t l = .holding msg) :
    Follows t ch (l ++ [(t, ⟨w, .write msg, r, w'⟩)]) w' ((Signal.write msg).apply s) := by
  have hwaiters : t ∈ w'.waiters ch ↔ t ∈ w.waiters ch := (hs.of_not_concerns rfl).1
  have hphase' : phase t (l ++ [(t, ⟨w, .write msg, r, w'⟩)]) = .idle := phase_snoc_self _
  have hlast : s.last = w'.last ch := by
    rw [h.last, hs.last_eq (by simp)]
  have hsince : since t (l ++ [(t, ⟨w, .write msg, r, w'⟩)]) ≠ [] ↔ since t l ≠ [] :=
    since_snoc_ne_nil_iff fun _ ↦ rfl
  refine ⟨?_, ?_, hlast, fun i ↦ ?_, ?_, ?_, ?_, fun hmem ↦ ?_, fun hp ↦ ?_⟩
  · rw [hphase']
    rfl
  · rw [hsince]
    exact h.started
  · refine h.pending_snoc_self ?_ ?_ i
    · rw [hphase]
      simp
    · rw [hphase']
      simp
  · rw [appendedSince_snoc_of_none rfl]
    exact h.appended
  · rw [heardSince_snoc_of_none rfl]
    exact h.heard
  · rw [written_snoc_self, ← h.written]
    simp [Signal.apply, Op.written]
  · have hw := h.waiting (hwaiters.mp hmem)
    rw [hphase] at hw
    cases hw
  · rw [hphase'] at hp
    cases hp

/-- What a step of any thread is to the reader: none of its signals, or one; and a notification if a
sender notifies the channel. -/
def Signals (j : ThreadId) (ch : ℤ) (o : Op) (s s' : Listener ThreadId WrongthinkMessage) :
    Prop :=
  s' = s ∨ ∃ e : Signal ThreadId WrongthinkMessage, s' = e.apply s ∧ e.enabled s ∧
    (o = .notifyAll ch → e = .notify j)

theorem step_self (h : Follows t ch l w s) (hs : NotifiedStep o w r w') (hindex : Indexed o w r w')
    (ho : (phase t l).Allows (some (ch, t)) o) :
    ∃ s', Follows t ch (l ++ [(t, ⟨w, o, r, w'⟩)]) w' s' ∧ Signals t ch o s s' := by
  obtain ⟨hs, hnotified⟩ := hs
  cases hphase : phase t l with
  | idle =>
    rw [hphase] at ho
    cases o with
    | wait id k =>
      have hx : some (ch, t) = some (id, k) := ho
      rw [Option.some.injEq, Prod.mk.injEq] at hx
      obtain ⟨rfl, rfl⟩ := hx
      have haway : s.mode = .away := by
        rw [h.mode, hphase]
        rfl
      exact ⟨_, h.wait hs hindex hphase,
        .inr ⟨.wait, rfl, haway, by simp⟩⟩
    | push _ _ | notifyAll _ | wake _ _ | write _ =>
      -- not the business of a listener that is idle
      simp [Phase.Allows] at ho
    | _ => exact ⟨s, h.stutter_self hs hphase rfl rfl rfl rfl, .inl rfl⟩
  | pushed id =>
    rw [hphase] at ho
    simp [Phase.Allows] at ho
  | waiting =>
    rw [hphase] at ho
    obtain ⟨id, k, hx, rfl⟩ := ho
    rw [Option.some.injEq, Prod.mk.injEq] at hx
    obtain ⟨rfl, rfl⟩ := hx
    obtain ⟨v, rfl⟩ := hs.ok_of_not_store rfl
    have hwoken : s.mode = .woken := by
      have hmem : t ∉ w.waiters ch := fun hmem ↦ hnotified ⟨(ch, t), rfl, hmem⟩
      rw [h.mode, hphase]
      simp [Phase.mode, hmem]
    exact ⟨_, h.wake hs hindex hphase, .inr ⟨.wake, rfl, hwoken, by simp⟩⟩
  | holding msg =>
    rw [hphase] at ho
    obtain rfl : o = .write msg := ho
    have hholding : s.mode = .holding msg := by
      rw [h.mode, hphase]
      rfl
    exact ⟨_, h.write hs hphase, .inr ⟨.write msg, rfl, hholding, by simp⟩⟩

theorem step_of_ne {x : Option (ℤ × ThreadId)} (h : Follows t ch l w s) (hj : j ≠ t)
    (hs : NotifiedStep o w r w') (hindex : Indexed o w r w') (ho : (phase j l).Allows x o)
    (hx : ∀ y ∈ x, y.2 = j) :
    ∃ s', Follows t ch (l ++ [(j, ⟨w, o, r, w'⟩)]) w' s' ∧ Signals j ch o s s' := by
  obtain ⟨hs, _⟩ := hs
  cases hphase : phase j l with
  | idle =>
    have hidle : phase j l ≠ .pushed ch := by simp [hphase]
    rw [hphase] at ho
    cases o with
    | push id msg =>
      by_cases hid : id = ch
      · subst hid
        have hj' : j ∉ s.pending := fun hmem ↦ hidle ((h.pending j).mp hmem)
        exact ⟨_, h.append hj hs hindex, .inr ⟨.append j msg, rfl, hj', by simp⟩⟩
      · exact ⟨s, h.stutter hj hs hidle (decide_eq_false hid), .inl rfl⟩
    | wait id k =>
      -- it waits under its own number
      have hk : k = j := hx (id, k) ho
      have hne : ¬(id = ch ∧ k = t) := fun heq ↦ hj (hk.symm.trans heq.2)
      exact ⟨s, h.stutter hj hs hidle (decide_eq_false hne), .inl rfl⟩
    | notifyAll _ | wake _ _ => simp [Phase.Allows] at ho
    | _ => exact ⟨s, h.stutter hj hs hidle rfl, .inl rfl⟩
  | pushed id =>
    rw [hphase] at ho
    obtain ⟨_, rfl⟩ := ho
    by_cases hid : id = ch
    · subst hid
      have hj' : j ∈ s.pending := (h.pending j).mpr hphase
      exact ⟨_, h.notify hj hs hindex, .inr ⟨.notify j, rfl, hj', fun _ ↦ rfl⟩⟩
    · have hne : phase j l ≠ .pushed ch := by simp [hphase, hid]
      exact ⟨s, h.stutter hj hs hne (decide_eq_false hid), .inl rfl⟩
  | waiting =>
    have hne : phase j l ≠ .pushed ch := by simp [hphase]
    rw [hphase] at ho
    obtain ⟨id, k, hxk, rfl⟩ := ho
    have hk : k = j := hx (id, k) hxk
    have hwake : ¬(id = ch ∧ k = t) := fun heq ↦ hj (hk.symm.trans heq.2)
    exact ⟨s, h.stutter hj hs hne (decide_eq_false hwake), .inl rfl⟩
  | holding msg =>
    have hne : phase j l ≠ .pushed ch := by simp [hphase]
    rw [hphase] at ho
    obtain rfl : o = .write msg := ho
    exact ⟨s, h.stutter hj hs hne rfl, .inl rfl⟩

end Follows

end Wrongthink
