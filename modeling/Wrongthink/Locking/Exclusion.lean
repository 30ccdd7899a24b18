import Wrongthink.Locking.Refinement

/-!
# Who holds the mutex

The members of a channel are only touched by the thread that holds its mutex, so there is never a
state in which two threads are about to touch them (`exclusive`). And the mutexes cannot block the
server: nobody waits for a second mutex while holding one, so whoever waits is let in once the
holder has done the statements that are left of its section, which are at most three
(`exists_turn`). A listener that is blocked in `channelCondition_.wait` is let in as well, since a
wait may end at any time.
-/

namespace Wrongthink

open Concurrent Function

variable {b : Backend} {ι : Type} [DecidableEq ι] {calls : ι → Request}
  {c c' : Pool ι (Access ι) Access.Result Exn Reply (Memory b ι)}
  {d : Pool ι Op Op.Result Exn Reply (World b)} {at' : ℤ → Option (ι × Stage)}
  {l : List (ι × Event (Access ι) Access.Result Exn (Memory b ι))}

/-! ## Touching a channel -/

/-- The channel whose members or whose mutex a statement works on, as their owner. -/
def Access.touches : Access ι → Option ℤ
  | push_back id _ | assign id _ | unlock id | block id _ | read id => some id
  | _ => none

namespace Refines

omit [DecidableEq ι] in
/-- What a thread does next is a statement of its section, or it is inside none. -/
theorem head (h : Refines at' c d) {i : ι} {a : Access ι}
    {k : Except Exn a.Result → Statements ι Reply} (hk : c.thread i = .act a k) :
    (∃ id s, at' id = some (i, s) ∧ a.touches = some id) ∨
      (∀ id s, at' id ≠ some (i, s)) ∧ a.touches = none := by
  by_cases hi : ∃ id s, at' id = some (i, s)
  · obtain ⟨id, s, hat⟩ := hi
    obtain ⟨_, _, _, _, _, hc⟩ := h.inside id i s hat
    rw [hc] at hk
    refine .inl ⟨id, s, hat, ?_⟩
    cases s <;> cases hk <;> rfl
  · have hout : ∀ id s, at' id ≠ some (i, s) := fun id s hat ↦ hi ⟨id, s, hat⟩
    have hc := h.outside i hout
    rw [hk] at hc
    refine .inr ⟨hout, ?_⟩
    cases hd : d.thread i with
    | done x =>
      rw [hd] at hc
      cases hc
    | raise e =>
      rw [hd] at hc
      cases hc
    | act o q =>
      rw [hd] at hc
      cases o <;> cases hc <;> rfl

omit [DecidableEq ι] in
theorem mutex_of_touches (h : Refines at' c d) {i : ι} {a : Access ι}
    {k : Except Exn a.Result → Statements ι Reply} (hk : c.thread i = .act a k) {id : ℤ}
    (ha : a.touches = some id) : c.state.channelMutex_ id = some i := by
  rcases h.head hk with ⟨id', s, hat, ha'⟩ | ⟨_, hnone⟩
  · obtain rfl := Option.some.inj (ha.symm.trans ha')
    rw [h.mutex, hat]
    rfl
  · rw [ha] at hnone
    cases hnone

end Refines

/-- **The members of a channel have one user at a time.** In every run, whatever touches them is
done by the thread that holds the mutex; and no state is reached in which two threads are about to
touch the members of the same channel. -/
theorem exclusive (hcalls : ∀ i, c.thread i = (calls i).statements i)
    (hfree : ∀ id, c.state.channelMutex_ id = none) (h : Pool.Steps Access.Step c l c') :
    (∀ x ∈ l, ∀ id, x.2.op.touches = some id → x.2.before.channelMutex_ id = some x.1) ∧
      ∀ i j a a' k k' id, c'.thread i = .act a k → c'.thread j = .act a' k' →
        a.touches = some id → a'.touches = some id → i = j := by
  constructor
  · induction h with
    | nil => simp
    | snoc h hk hs ih =>
      rw [List.forall_mem_append]
      refine ⟨ih, ?_⟩
      obtain ⟨at', m, d', _, _, hrefines⟩ := exists_refined hcalls hfree h
      rw [List.forall_mem_singleton]
      exact fun id ha ↦ hrefines.mutex_of_touches hk ha
  · intro i j a a' k k' id hi hj ha ha'
    obtain ⟨at', m, d', _, _, hrefines⟩ := exists_refined hcalls hfree h
    exact Option.some.inj ((hrefines.mutex_of_touches hi ha).symm.trans
      (hrefines.mutex_of_touches hj ha'))

theorem exclusive_correspondence :
    let played := Pool.replayWhere Access.exec correspondence appending
    (∀ x ∈ played.1, ∀ id, x.2.op.touches = some id → x.2.before.channelMutex_ id = some x.1) ∧
      ∀ i j a a' k k' id, played.2.thread i = .act a k → played.2.thread j = .act a' k' →
        a.touches = some id → a'.touches = some id → i = j :=
  exclusive correspondence_thread (fun _ ↦ rfl)
    (Pool.replayWhere_sound Access.step_exec _ _)

/-! ## Getting in -/

/-- The channel whose mutex a statement takes. -/
def Access.awaits : Access ι → Option ℤ
  | lock id _ | reacquire id _ _ => some id
  | _ => none

omit [DecidableEq ι] in
theorem Access.exists_exec {a : Access ι} {m : Memory b ι}
    (h : ∀ id, a.awaits = some id → m.channelMutex_ id = none) : ∃ x, a.exec m = some x := by
  cases a with
  | lock id _ | reacquire id _ _ => exact ⟨_, if_pos (h id rfl)⟩
  | _ => exact ⟨_, rfl⟩

omit [DecidableEq ι] in
theorem Access.touches_of_awaits {a : Access ι} {id : ℤ} (h : a.awaits = some id) :
    a.touches = none := by
  cases a with
  | lock _ _ | reacquire _ _ _ => rfl
  | _ => cases h

/-- **The holder lets go.** It has only statements to do that nothing can keep it from. -/
theorem Refines.exists_release (h : Refines at' c d) {id : ℤ} {j : ι} {s : Stage}
    (hat : at' id = some (j, s)) :
    ∃ l c', Pool.Steps Access.Step c l c' ∧ l.length ≤ s.left ∧ (∀ x ∈ l, x.1 = j) ∧
      c'.state.channelMutex_ id = none := by
  induction hn : s.left using Nat.strongRecOn generalizing s c d at' with
  | ind n ih =>
    subst hn
    have hhead : ∃ a k, c.thread j = .act a k ∧ ∃ x, a.exec c.state = some x := by
      obtain ⟨_, _, _, _, _, hc⟩ := h.inside id j s hat
      rw [hc]
      cases s <;> exact ⟨_, _, rfl, _, rfl⟩
    obtain ⟨a, k, hk, ⟨r, m'⟩, hexec⟩ := hhead
    obtain ⟨x, m, d', hleft, _, _, hrefines⟩ := h.step_inside hat hk (.exec hexec)
    have hstep := (Pool.Steps.nil c).snoc hk (Access.Step.exec hexec)
    cases x with
    | none =>
      refine ⟨_, _, hstep, ?_, by simp, ?_⟩
      · cases s <;> simp [Stage.left]
      · rw [hrefines.mutex, Option.map_none, update_self]
        rfl
    | some s' =>
      obtain ⟨l, c', hsteps, hlength, hmine, hrelease⟩ :=
        ih s'.left (hleft s' rfl) hrefines (s := s') (update_self _ _ _) rfl
      refine ⟨_, c', hstep.append hsteps, ?_, ?_, hrelease⟩
      · have hlt := hleft s' rfl
        rw [List.length_append, List.nil_append, List.length_singleton]
        omega
      · simpa using hmine

/-- The thread `j` holds the mutex that `i` is about to take. -/
def HoldsUp (c : Pool ι (Access ι) Access.Result Exn Reply (Memory b ι)) (j i : ι) : Prop :=
  ∃ a k id, c.thread i = .act a k ∧ a.awaits = some id ∧ c.state.channelMutex_ id = some j

/-- **Everybody gets in.** From every state that is reached, every thread that has not finished can
take its next step within four: its own and those of the one thread that it waits for. -/
theorem exists_turn (hcalls : ∀ i, c.thread i = (calls i).statements i)
    (hfree : ∀ id, c.state.channelMutex_ id = none) (h : Pool.Steps Access.Step c l c') {i : ι}
    (hi : (c'.thread i).outcome = none) :
    ∃ l' c'', Pool.Steps Access.Step c' l' c'' ∧ view i l' ≠ [] ∧ l'.length ≤ 4 ∧
      ((∀ x ∈ l', x.1 = i) ∨ ∃ j, HoldsUp c' j i ∧ ∀ x ∈ l', x.1 = i ∨ x.1 = j) := by
  obtain ⟨a, k, hk⟩ : ∃ a k, c'.thread i = .act a k := by
    cases hp : c'.thread i with
    | act a k => exact ⟨a, k, rfl⟩
    | _ =>
      rw [hp] at hi
      cases hi
  obtain ⟨at', m, d', _, _, hrefines⟩ := exists_refined hcalls hfree h
  by_cases hheld : ∃ j id, a.awaits = some id ∧ c'.state.channelMutex_ id = some j
  swap
  · -- nothing keeps it
    obtain ⟨⟨r, m'⟩, hexec⟩ : ∃ x, a.exec c'.state = some x := by
      refine Access.exists_exec fun id ha ↦ Option.eq_none_iff_forall_ne_some.mpr fun j hj ↦ ?_
      exact hheld ⟨j, id, ha, hj⟩
    refine ⟨_, _, (Pool.Steps.nil c').snoc hk (.exec hexec), ?_, by simp, .inl (by simp)⟩
    rw [List.nil_append, view_cons_self]
    simp
  obtain ⟨j, id, ha, hj⟩ := hheld
  have hholds : HoldsUp c' j i := ⟨a, k, id, hk, ha, hj⟩
  have hout : ∀ s, at' id ≠ some (i, s) := by
    rcases hrefines.head hk with ⟨_, _, _, htouches⟩ | ⟨hout, _⟩
    · rw [Access.touches_of_awaits ha] at htouches
      cases htouches
    · exact hout id
  obtain ⟨s, hat⟩ : ∃ s, at' id = some (j, s) := by
    rw [hrefines.mutex, Option.map_eq_some_iff] at hj
    obtain ⟨⟨j', s⟩, hat, rfl⟩ := hj
    exact ⟨s, hat⟩
  have hji : j ≠ i := by
    rintro rfl
    exact hout s hat
  obtain ⟨l', c'', hsteps, hlength, hmine, hrelease⟩ := hrefines.exists_release hat
  have hview : view i l' = [] := by
    rw [List.eq_nil_iff_forall_not_mem]
    exact fun e he ↦ hji (hmine _ (mem_view.mp he)).symm
  rw [← hsteps.thread_eq hview] at hk
  obtain ⟨⟨r, m'⟩, hexec⟩ : ∃ x, a.exec c''.state = some x := by
    refine Access.exists_exec fun id' ha' ↦ ?_
    obtain rfl : id' = id := Option.some.inj (ha'.symm.trans ha)
    exact hrelease
  refine ⟨_, _, hsteps.snoc hk (.exec hexec), ?_, ?_, .inr ⟨j, hholds, ?_⟩⟩
  · rw [view_append, view_cons_self]
    simp
  · have hleft : s.left ≤ 3 := by cases s <;> simp [Stage.left]
    rw [List.length_append, List.length_singleton]
    omega
  · rw [List.forall_mem_append]
    exact ⟨fun x hx ↦ .inr (hmine x hx), by simp⟩

/-- The listener, which waits for the sender. -/
theorem exists_turn_correspondence :
    let played := Pool.replayWhere Access.exec correspondence appending
    ∃ l c', Pool.Steps Access.Step played.2 l c' ∧ view true l ≠ [] ∧ l.length ≤ 4 ∧
      ((∀ x ∈ l, x.1 = true) ∨ ∃ j, HoldsUp played.2 j true ∧ ∀ x ∈ l, x.1 = true ∨ x.1 = j) :=
  exists_turn correspondence_thread (fun _ ↦ rfl)
    (Pool.replayWhere_sound Access.step_exec _ _) rfl

end Wrongthink
