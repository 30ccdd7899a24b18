import Wrongthink.Channels.Entries
import Wrongthink.Locking.Memory
import Wrongthink.Service.Serve

/-!
# What holds for actions holds for statements

The rest of this development takes the sections under a channel's mutex for single actions. Here
that is justified: whatever a server does statement by statement, a server that does the sections at
once could have done, with the same answers in the same order and the same replies
(`exists_refined`).

## The simulation

A thread inside a section has, for everybody else, not begun it yet; the section happens when the
mutex is given back. So the channel of the lower level is the channel of the upper level, and what
the holder of its mutex has done to it so far (`Stage.effect`). Nobody else sees or changes what the
holder works on, with one exception: `notify_all` comes without the mutex. It changes the queue of
the blocked threads and nothing else, and commutes with all that a holder does before it gives the
mutex back. A thread that is about to block enters the queue only then.
-/

namespace Wrongthink

open Concurrent Function

variable {b : Backend} {ι : Type}

/-! ## Inside a section -/

/-- How far the holder of a mutex has come. -/
inductive Stage where
  /-- Before `push_back`. -/
  | locked (msg : WrongthinkMessage)
  /-- Before the assignment. -/
  | pushed (msg : WrongthinkMessage)
  | assigned (msg : WrongthinkMessage)
  /-- Before it blocks. -/
  | blocking (l : ThreadId)
  | woken (l : ThreadId)
  /-- `lastMessage_` has been copied. -/
  | returning (l : ThreadId) (msg : WrongthinkMessage)

namespace Stage

/-- The action that the section stands for. -/
def op (id : ℤ) : Stage → Op
  | locked msg | pushed msg | assigned msg => .push id msg
  | blocking l => .wait id l
  | woken l | returning l _ => .wake id l

/-- What is left of the section. -/
def rest (id : ℤ) : (s : Stage) → Statements ι (Except Exn (s.op id).Result)
  | locked msg => do
    access (.push_back id msg)
    access (.assign id msg)
    access (.unlock id)
    return .ok ()
  | pushed msg => do
    access (.assign id msg)
    access (.unlock id)
    return .ok ()
  | assigned _ => do
    access (.unlock id)
    return .ok ()
  | blocking l => do
    access (.block id l)
    return .ok ()
  | woken _ => do
    let msg ← access (.read id)
    access (.unlock id)
    return .ok msg
  | returning _ msg => do
    access (.unlock id)
    return .ok msg

/-- The statements that are left. -/
def left : Stage → ℕ
  | locked _ => 3
  | pushed _ | woken _ => 2
  | assigned _ | blocking _ | returning _ _ => 1

/-- What has been done to the channel. -/
def effect : Stage → SynchronizedChannel ThreadId → SynchronizedChannel ThreadId
  | locked _, ch | blocking _, ch => ch
  | pushed msg, ch => ch.push_back msg
  | assigned msg, ch => ch.push msg
  | woken l, ch | returning l _, ch => ch.wake l

/-- What has been read is there. -/
def Agrees : Stage → SynchronizedChannel ThreadId → Prop
  | returning _ msg, ch => ch.lastMessage_ = msg
  | _, _ => True

theorem effect_notifyAll (s : Stage) (ch : SynchronizedChannel ThreadId) :
    s.effect ch.notifyAll = (s.effect ch).notifyAll := by
  cases s <;> rfl

theorem Agrees.congr {s : Stage} {ch ch' : SynchronizedChannel ThreadId} (h : s.Agrees ch)
    (hlast : ch'.lastMessage_ = ch.lastMessage_) : s.Agrees ch' := by
  cases s with
  | returning l msg => exact hlast.trans h
  | _ => trivial

end Stage

/-- What the holder of a mutex, if there is one, has done to the channel. -/
def effectOf (x : Option (ι × Stage)) (ch : SynchronizedChannel ThreadId) :
    SynchronizedChannel ThreadId := (x.map fun y ↦ y.2.effect ch).getD ch

@[simp] theorem effectOf_none : effectOf (none : Option (ι × Stage)) = id := rfl

theorem effectOf_notifyAll (x : Option (ι × Stage)) (ch : SynchronizedChannel ThreadId) :
    effectOf x ch.notifyAll = (effectOf x ch).notifyAll := by
  cases x with
  | none => rfl
  | some y => exact y.2.effect_notifyAll ch

/-! ## Two states -/

/-- The state `w` of the lower level, beside the state `v` of the upper level. -/
structure Beside (at' : ℤ → Option (ι × Stage)) (w v : World b) : Prop where
  db : w.db = v.db
  now : w.now = v.now
  channel : ∀ id, w.channelMap id = (v.channelMap id).map (effectOf (at' id))
  present : ∀ id, v.channelMap id = none → at' id = none

section Beside

variable {at' : ℤ → Option (ι × Stage)} {w w' v : World b} {o : Op}

theorem Beside.drift (h : Beside at' w v) (d : World.Drift) :
    Beside at' (w.drift d) (v.drift d) := by
  refine ⟨?_, rfl, h.channel, h.present⟩
  change w.db.skip d.gaps = v.db.skip d.gaps
  rw [h.db]

theorem Beside.insertNew (h : Beside at' w v) (id : ℤ) (new : SynchronizedChannel ThreadId) :
    Beside at' (w.insertNew id new) (v.insertNew id new) := by
  refine ⟨h.db, h.now, fun id' ↦ ?_, fun id' hid' ↦ ?_⟩
  · by_cases hid : id' = id
    · subst hid
      rw [World.channelMap_insertNew_self, World.channelMap_insertNew_self, h.channel]
      cases hv : v.channelMap id' with
      | none =>
        rw [h.present id' hv]
        rfl
      | some ch => rfl
    · rw [World.channelMap_insertNew_of_ne _ hid, World.channelMap_insertNew_of_ne _ hid, h.channel]
  · by_cases hid : id' = id
    · subst hid
      rw [World.channelMap_insertNew_self] at hid'
      cases hid'
    · rw [World.channelMap_insertNew_of_ne _ hid] at hid'
      exact h.present id' hid'

theorem Beside.notifyAll (h : Beside at' w v) (id : ℤ) :
    Beside at' (w.modify id (·.notifyAll)) (v.modify id (·.notifyAll)) := by
  refine ⟨h.db, h.now, fun id' ↦ ?_, fun id' hid' ↦ ?_⟩
  · by_cases hid : id' = id
    · subst hid
      rw [World.channelMap_modify_self, World.channelMap_modify_self, h.channel, Option.map_map,
        Option.map_map]
      congr 1
      funext ch
      exact (effectOf_notifyAll _ ch).symm
    · rw [World.channelMap_modify_of_ne _ hid, World.channelMap_modify_of_ne _ hid, h.channel]
  · refine h.present id' ?_
    by_cases hid : id' = id
    · subst hid
      rw [World.channelMap_modify_self, Option.map_eq_none_iff] at hid'
      exact hid'
    · rw [World.channelMap_modify_of_ne _ hid] at hid'
      exact hid'

/-- What takes no mutex has the same answer and the same effect on both levels. -/
theorem Beside.exec (h : Beside at' w v) (ho : o.locks = none) :
    (o.exec w).1 = (o.exec v).1 ∧ Beside at' (o.exec w).2 (o.exec v).2 := by
  cases o with
  | sql q =>
    have hexec : w.db.exec w.now q = v.db.exec v.now q := by rw [h.db, h.now]
    have hfst := congrArg Prod.fst hexec
    have hsnd := congrArg Prod.snd hexec
    exact ⟨hfst, hsnd, h.now, h.channel, h.present⟩
  | time => exact ⟨congrArg Except.ok h.now, h⟩
  | count id =>
    refine ⟨?_, h⟩
    rw [Op.exec, Op.exec, h.channel, Option.isSome_map]
  | emplace id name => exact ⟨rfl, h.insertNew id _⟩
  | index id => exact ⟨rfl, h.insertNew id _⟩
  | notifyAll id => exact ⟨rfl, h.notifyAll id⟩
  | push id msg | wait id l | wake id l => cases ho
  | _ => exact ⟨rfl, h⟩

theorem Op.Step.beside {r : Except Exn o.Result} (hs : Op.Step o w r w') (ho : o.locks = none)
    (h : Beside at' w v) : ∃ v', Op.Step o v r v' ∧ Beside at' w' v' := by
  obtain ⟨d, ⟨rfl, rfl⟩ | ⟨hstore, rfl, rfl⟩⟩ := hs.cases
  · obtain ⟨hr, hexec⟩ := (h.drift d).exec ho
    rw [hr]
    exact ⟨_, .exec d o v, hexec⟩
  · exact ⟨_, .lost d o v hstore, h.drift d⟩

theorem Op.Step.lastMessage_eq {r : Except Exn o.Result} (hs : Op.Step o w r w')
    (ho : o.locks = none) {id : ℤ} {ch : SynchronizedChannel ThreadId}
    (hch : w.channelMap id = some ch) :
    ∃ ch', w'.channelMap id = some ch' ∧ ch'.lastMessage_ = ch.lastMessage_ := by
  have hnew : ∀ (id' : ℤ) (new : SynchronizedChannel ThreadId) (d : World.Drift),
      ∃ ch', ((w.drift d).insertNew id' new).channelMap id = some ch' ∧
        ch'.lastMessage_ = ch.lastMessage_ := by
    intro id' new d
    refine ⟨ch, ?_, rfl⟩
    by_cases hid : id = id'
    · subst hid
      rw [World.channelMap_insertNew_self, World.channelMap_drift, hch]
      rfl
    · rw [World.channelMap_insertNew_of_ne _ hid, World.channelMap_drift, hch]
  obtain ⟨d, ⟨_, rfl⟩ | ⟨_, _, rfl⟩⟩ := hs.cases
  · cases o with
    | emplace id' name => exact hnew id' _ d
    | index id' => exact hnew id' _ d
    | notifyAll id' =>
      by_cases hid : id = id'
      · subst hid
        refine ⟨ch.notifyAll, ?_, rfl⟩
        rw [Op.exec, World.channelMap_modify_self, World.channelMap_drift, hch]
        rfl
      · refine ⟨ch, ?_, rfl⟩
        rw [Op.exec, World.channelMap_modify_of_ne _ hid, World.channelMap_drift, hch]
    | push id msg | wait id l | wake id l => cases ho
    | _ => exact ⟨ch, hch, rfl⟩
  · exact ⟨ch, hch, rfl⟩

end Beside

/-! ## Steps -/

/-- An action that takes no mutex, with its answer. -/
def Action.outer (e : Action b) : Option (Σ o : Op, Except Exn o.Result) :=
  if e.op.locks = none then some ⟨e.op, e.result⟩ else none

/-- The same among the statements. -/
def Access.outer : Event (Access ι) Access.Result Exn (Memory b ι) →
    Option (Σ o : Op, Except Exn o.Result)
  | ⟨_, .plain o, r, _⟩ => some ⟨o, r⟩
  | _ => none

theorem Access.Step.eq_exec {a : Access ι} {m m' : Memory b ι} {r : Except Exn a.Result}
    (h : Access.Step a m r m') (ha : ∀ o, a ≠ .plain o) : a.exec m = some (r, m') := by
  cases h with
  | exec h => exact h
  | plain h => exact absurd rfl (ha _)

theorem Access.Step.of_plain {o : Op} {m m' : Memory b ι} {r : Except Exn o.Result}
    (h : Access.Step (.plain o) m r m') :
    Op.Step o m.world r m'.world ∧ m'.channelMutex_ = m.channelMutex_ := by
  cases h with
  | exec h =>
    obtain ⟨rfl, rfl⟩ := Prod.mk.inj (Option.some.inj h)
    exact ⟨Op.step_exec o m.world, rfl⟩
  | plain h => exact ⟨h, rfl⟩

theorem Access.Step.of_lock {id : ℤ} {i : ι} {m m' : Memory b ι} {r : Except Exn Unit}
    (h : Access.Step (.lock id i) m r m') :
    m.channelMutex_ id = none ∧ r = .ok () ∧ m' = m.hold id i := by
  have hexec := h.eq_exec (by simp)
  rw [Access.exec] at hexec
  split at hexec
  · rename_i hfree
    obtain ⟨rfl, rfl⟩ := Prod.mk.inj (Option.some.inj hexec)
    exact ⟨hfree, rfl, rfl⟩
  · cases hexec

theorem Access.Step.of_reacquire {id : ℤ} {i : ι} {l : ThreadId} {m m' : Memory b ι}
    {r : Except Exn Unit} (h : Access.Step (.reacquire id i l) m r m') :
    m.channelMutex_ id = none ∧ r = .ok () ∧ m' = (m.modify id (·.wake l)).hold id i := by
  have hexec := h.eq_exec (by simp)
  rw [Access.exec] at hexec
  split at hexec
  · rename_i hfree
    obtain ⟨rfl, rfl⟩ := Prod.mk.inj (Option.some.inj hexec)
    exact ⟨hfree, rfl, rfl⟩
  · cases hexec

/-! ## The two levels -/

theorem Op.outcome_statements (i : ι) (o : Op) : (o.statements i).outcome = none := by
  cases o <;> rfl

theorem Op.statements_of_plain {i : ι} {o : Op} (ho : o.locks = none) :
    o.statements i = .act (.plain o) .done := by
  cases o with
  | push _ _ | wait _ _ | wake _ _ => cases ho
  | _ => rfl

variable {c c' : Pool ι (Access ι) Access.Result Exn Reply (Memory b ι)}
  {d d' : Pool ι Op Op.Result Exn Reply (World b)} {at' : ℤ → Option (ι × Stage)}

/-- The server `c` does by statements what `d` does by actions, and `at'` tells who is inside which
section. -/
structure Refines (at' : ℤ → Option (ι × Stage))
    (c : Pool ι (Access ι) Access.Result Exn Reply (Memory b ι))
    (d : Pool ι Op Op.Result Exn Reply (World b)) : Prop where
  state : Beside at' c.state.world d.state
  mutex : ∀ id, c.state.channelMutex_ id = (at' id).map Prod.fst
  inside : ∀ id i s, at' id = some (i, s) → ∃ ch k, d.state.channelMap id = some ch ∧ s.Agrees ch ∧
    d.thread i = .act (s.op id) k ∧
    c.thread i = s.rest id >>= fun r ↦ (k r).expand (Op.statements i)
  outside : ∀ i, (∀ id s, at' id ≠ some (i, s)) → c.thread i = (d.thread i).expand (Op.statements i)

/-- Whoever is about to use a channel finds it. -/
def Provided (d : Pool ι Op Op.Result Exn Reply (World b)) : Prop :=
  ∀ i o k, d.thread i = .act o k → ∀ id, o.uses = some id → (d.state.channelMap id).isSome

namespace Refines

theorem eq_of_inside (h : Refines at' c d) {id id' : ℤ} {i : ι} {s s' : Stage}
    (hs : at' id = some (i, s)) (hs' : at' id' = some (i, s')) : id' = id := by
  obtain ⟨_, k, _, _, hk, _⟩ := h.inside id i s hs
  obtain ⟨_, k', _, _, hk', _⟩ := h.inside id' i s' hs'
  rw [hk] at hk'
  have hop : (s.op id).locks = (s'.op id').locks := by
    injection hk' with hop
    rw [hop]
  cases s <;> cases s' <;> exact (Option.some.inj hop).symm

variable [DecidableEq ι]

/-- **One section moves on.** Thread `i` enters the section of `id`, goes on in it or leaves it, and
what happens is confined to that channel and that thread. -/
theorem move (h : Refines at' c d) {id : ℤ} {i : ι} (x : Option Stage) {m' : Memory b ι}
    {p' : Statements ι Reply} (hid : ∀ j s, at' id = some (j, s) → j = i)
    (hi : ∀ id' s, at' id' = some (i, s) → id' = id) (hdb : m'.world.db = d'.state.db)
    (hnow : m'.world.now = d'.state.now)
    (hmutex : m'.channelMutex_ = update c.state.channelMutex_ id (x.map fun _ ↦ i))
    (hother : ∀ id', id' ≠ id → m'.world.channelMap id' = c.state.world.channelMap id')
    (hother' : ∀ id', id' ≠ id → d'.state.channelMap id' = d.state.channelMap id')
    (hchannel : m'.world.channelMap id =
      (d'.state.channelMap id).map (effectOf (x.map fun s ↦ (i, s))))
    (hthread : ∀ j, j ≠ i → d'.thread j = d.thread j)
    (hpresent : d'.state.channelMap id = none → x = none)
    (hinside : ∀ s, x = some s → ∃ ch k, d'.state.channelMap id = some ch ∧ s.Agrees ch ∧
      d'.thread i = .act (s.op id) k ∧ p' = s.rest id >>= fun r ↦ (k r).expand (Op.statements i))
    (houtside : x = none → p' = (d'.thread i).expand (Op.statements i)) :
    Refines (update at' id (x.map fun s ↦ (i, s))) ⟨m', update c.thread i p'⟩ d' := by
  refine ⟨⟨hdb, hnow, fun id' ↦ ?_, fun id' hnone ↦ ?_⟩, fun id' ↦ ?_, fun id' j s hs ↦ ?_,
    fun j hj ↦ ?_⟩
  · dsimp only
    by_cases hid' : id' = id
    · subst hid'
      rw [update_self, hchannel]
    · rw [update_of_ne hid', hother id' hid', hother' id' hid', h.state.channel]
  · by_cases hid' : id' = id
    · subst hid'
      rw [update_self, hpresent hnone]
      rfl
    · rw [hother' id' hid'] at hnone
      rw [update_of_ne hid', h.state.present id' hnone]
  · dsimp only
    by_cases hid' : id' = id
    · subst hid'
      rw [hmutex, update_self, update_self, Option.map_map]
      rfl
    · rw [hmutex, update_of_ne hid', update_of_ne hid', h.mutex]
  · dsimp only
    by_cases hid' : id' = id
    · subst hid'
      rw [update_self, Option.map_eq_some_iff] at hs
      obtain ⟨s', hx, heq⟩ := hs
      obtain ⟨rfl, rfl⟩ := Prod.mk.inj heq
      rw [update_self]
      exact hinside s' hx
    · rw [update_of_ne hid'] at hs
      have hj : j ≠ i := by
        rintro rfl
        exact hid' (hi id' s hs)
      rw [update_of_ne hj, hthread j hj, hother' id' hid']
      exact h.inside id' j s hs
  · dsimp only
    by_cases hji : j = i
    · subst hji
      rw [update_self]
      refine houtside (Option.eq_none_iff_forall_ne_some.mpr fun s hs ↦ hj id s ?_)
      rw [update_self, hs]
      rfl
    · rw [update_of_ne hji, hthread j hji]
      refine h.outside j fun id' s hs ↦ ?_
      by_cases hid' : id' = id
      · subst hid'
        exact hji (hid j s hs)
      · exact hj id' s (by rw [update_of_ne hid', hs])

theorem hold (h : Refines at' c d) {id : ℤ} {i : ι} {s : Stage} {m' : Memory b ι}
    {ch : SynchronizedChannel ThreadId} {k : Except Exn (s.op id).Result → Routine Reply}
    (hid : ∀ j s, at' id = some (j, s) → j = i) (hi : ∀ id' s, at' id' = some (i, s) → id' = id)
    (hd : d.thread i = .act (s.op id) k) (hch : d.state.channelMap id = some ch)
    (hagrees : s.Agrees ch) (hdb : m'.world.db = c.state.world.db)
    (hnow : m'.world.now = c.state.world.now)
    (hmutex : m'.channelMutex_ = update c.state.channelMutex_ id (some i))
    (hother : ∀ id', id' ≠ id → m'.world.channelMap id' = c.state.world.channelMap id')
    (hchannel : m'.world.channelMap id = some (s.effect ch)) :
    Refines (update at' id (some (i, s))) ⟨m', update c.thread i
      (s.rest id >>= fun r ↦ (k r).expand (Op.statements i))⟩ d := by
  refine h.move (some s) hid hi (hdb.trans h.state.db) (hnow.trans h.state.now) hmutex hother
    (fun _ _ ↦ rfl) ?_ (fun _ _ ↦ rfl) ?_ ?_ nofun
  · rw [hchannel, hch]
    rfl
  · intro hnone
    rw [hch] at hnone
    cases hnone
  · intro s' hs'
    obtain rfl := Option.some.inj hs'
    exact ⟨ch, k, hch, hagrees, hd, rfl⟩

theorem enter (h : Refines at' c d) {id : ℤ} {i : ι} {s : Stage} {m' : Memory b ι}
    {ch : SynchronizedChannel ThreadId} {k : Except Exn (s.op id).Result → Routine Reply}
    (hi : ∀ id s, at' id ≠ some (i, s)) (hfree : c.state.channelMutex_ id = none)
    (hd : d.thread i = .act (s.op id) k) (hch : d.state.channelMap id = some ch)
    (hagrees : s.Agrees ch) (hdb : m'.world.db = c.state.world.db)
    (hnow : m'.world.now = c.state.world.now)
    (hmutex : m'.channelMutex_ = update c.state.channelMutex_ id (some i))
    (hother : ∀ id', id' ≠ id → m'.world.channelMap id' = c.state.world.channelMap id')
    (hchannel : m'.world.channelMap id = some (s.effect ch)) :
    Refines (update at' id (some (i, s))) ⟨m', update c.thread i
      (s.rest id >>= fun r ↦ (k r).expand (Op.statements i))⟩ d := by
  rw [h.mutex, Option.map_eq_none_iff] at hfree
  refine h.hold (fun j s' hs' ↦ ?_) (fun id' s' hs' ↦ absurd hs' (hi id' s')) hd hch hagrees
    hdb hnow hmutex hother hchannel
  rw [hfree] at hs'
  cases hs'

omit [DecidableEq ι] in
/-- Where nobody is inside, the two levels have the same channel. -/
theorem channel_of_free (h : Refines at' c d) {id : ℤ} {ch : SynchronizedChannel ThreadId}
    (hfree : c.state.channelMutex_ id = none) (hch : d.state.channelMap id = some ch) :
    c.state.world.channelMap id = some ch := by
  rw [h.mutex, Option.map_eq_none_iff] at hfree
  rw [h.state.channel, hfree, hch]
  rfl

theorem leave (h : Refines at' c d) {id : ℤ} {i : ι} {s : Stage} {o : Op} {v : o.Result}
    {f : SynchronizedChannel ThreadId → SynchronizedChannel ThreadId} {m : Memory b ι}
    {k : Except Exn o.Result → Routine Reply} (hat : at' id = some (i, s))
    (hd : d.thread i = .act o k) (hexec : o.exec d.state = (.ok v, d.state.modify id f))
    (hdb : m.world.db = c.state.world.db) (hnow : m.world.now = c.state.world.now)
    (hmutex : m.channelMutex_ = update c.state.channelMutex_ id none)
    (hother : ∀ id', id' ≠ id → m.world.channelMap id' = c.state.world.channelMap id')
    (hchannel : m.world.channelMap id = (d.state.channelMap id).map f) :
    Pool.Steps Op.Step d [(i, ⟨d.state, o, .ok v, d.state.modify id f⟩)]
        ⟨d.state.modify id f, update d.thread i (k (.ok v))⟩ ∧
      Refines (update at' id none)
        ⟨m, update c.thread i ((k (.ok v)).expand (Op.statements i))⟩
        ⟨d.state.modify id f, update d.thread i (k (.ok v))⟩ := by
  constructor
  · have hstep := Op.step_exec o d.state
    rw [hexec] at hstep
    exact (Pool.Steps.nil d).snoc hd hstep
  · refine h.move none (fun j s' hs' ↦ ?_) (fun id' s' hs' ↦ h.eq_of_inside hat hs')
      (hdb.trans h.state.db) (hnow.trans h.state.now) hmutex hother
      (fun id' hid' ↦ World.channelMap_modify_of_ne _ hid') ?_ (fun j hj ↦ update_of_ne hj _ _)
      (fun _ ↦ rfl) (by simp) fun _ ↦ ?_
    · rw [hat] at hs'
      exact (Prod.mk.inj (Option.some.inj hs')).1.symm
    · rw [hchannel, World.channelMap_modify_self]
      exact Option.map_id'.symm
    · dsimp only
      rw [update_self]

theorem step_inside (h : Refines at' c d) {id : ℤ} {i : ι} {s : Stage} (hat : at' id = some (i, s))
    {a : Access ι} {k : Except Exn a.Result → Statements ι Reply} {r : Except Exn a.Result}
    {m' : Memory b ι} (hk : c.thread i = .act a k) (hs : Access.Step a c.state r m') :
    ∃ (x : Option Stage) (l : List (ι × Action b)) (d' : Pool ι Op Op.Result Exn Reply (World b)),
      (∀ s', x = some s' → s'.left < s.left) ∧ Pool.Steps Op.Step d l d' ∧
        tagged Action.outer l = tagged Access.outer [(i, ⟨c.state, a, r, m'⟩)] ∧
          Refines (update at' id (x.map fun s ↦ (i, s))) ⟨m', update c.thread i (k r)⟩ d' := by
  obtain ⟨ch, q, hch, hagrees, hd, hc⟩ := h.inside id i s hat
  have hid : ∀ j s', at' id = some (j, s') → j = i := by
    intro j s' hs'
    rw [hat] at hs'
    exact (Prod.mk.inj (Option.some.inj hs')).1.symm
  have hi : ∀ id' s', at' id' = some (i, s') → id' = id := fun id' s' hs' ↦ h.eq_of_inside hat hs'
  have hheld : c.state.channelMutex_ id = some i := by
    rw [h.mutex, hat]
    rfl
  have hmutex : c.state.channelMutex_ = update c.state.channelMutex_ id (some i) := by
    rw [← hheld, update_eq_self]
  have hself : c.state.world.channelMap id = some (s.effect ch) := by
    rw [h.state.channel, hat, hch]
    rfl
  have hmap : ∀ f : SynchronizedChannel ThreadId → SynchronizedChannel ThreadId,
      (c.state.modify id f).world.channelMap id = some (f (s.effect ch)) := by
    intro f
    change (c.state.world.modify id f).channelMap id = _
    rw [World.channelMap_modify_self, hself]
    rfl
  have hother : ∀ (f : SynchronizedChannel ThreadId → SynchronizedChannel ThreadId) (id' : ℤ),
      id' ≠ id → (c.state.modify id f).world.channelMap id' = c.state.world.channelMap id' :=
    fun f id' hid' ↦ World.channelMap_modify_of_ne _ hid'
  have hleave : c.state.world.channelMap id = (d.state.channelMap id).map s.effect := by
    rw [hself, hch]
    rfl
  rw [hc] at hk
  cases s with
  | locked msg =>
    change Prog.act (Access.push_back id msg) _ = Prog.act a k at hk
    cases hk
    cases hs.eq_exec (by simp)
    refine ⟨some (.pushed msg), [], d, fun s' hs' ↦ ?_, .nil d, rfl,
      h.hold (s := .pushed msg) hid hi hd hch trivial rfl rfl hmutex (hother _) (hmap _)⟩
    obtain rfl := Option.some.inj hs'
    exact Nat.lt_succ_self 2
  | pushed msg =>
    change Prog.act (Access.assign id msg) _ = Prog.act a k at hk
    cases hk
    cases hs.eq_exec (by simp)
    refine ⟨some (.assigned msg), [], d, fun s' hs' ↦ ?_, .nil d, rfl,
      h.hold (s := .assigned msg) hid hi hd hch trivial rfl rfl hmutex (hother _) (hmap _)⟩
    obtain rfl := Option.some.inj hs'
    exact Nat.lt_succ_self 1
  | assigned msg =>
    change Prog.act (Access.unlock id) _ = Prog.act a k at hk
    cases hk
    cases hs.eq_exec (by simp)
    obtain ⟨hsteps, hrefines⟩ := h.leave hat hd rfl (m := c.state.release id) rfl rfl rfl
      (fun _ _ ↦ rfl) hleave
    exact ⟨none, _, _, by simp, hsteps, rfl, hrefines⟩
  | blocking l =>
    change Prog.act (Access.block id l) _ = Prog.act a k at hk
    cases hk
    cases hs.eq_exec (by simp)
    obtain ⟨hsteps, hrefines⟩ := h.leave hat hd rfl
      (m := (c.state.modify id (·.wait l)).release id) rfl rfl rfl (hother _)
      ((hmap _).trans (by rw [hch]; rfl))
    exact ⟨none, _, _, by simp, hsteps, rfl, hrefines⟩
  | woken l =>
    change Prog.act (Access.read id) _ = Prog.act a k at hk
    cases hk
    cases hs.eq_exec (by simp)
    rw [hself]
    refine ⟨some (.returning l ch.lastMessage_), [], d, fun s' hs' ↦ ?_, .nil d, rfl,
      h.hold (s := .returning l ch.lastMessage_) hid hi hd hch rfl rfl rfl hmutex (fun _ _ ↦ rfl)
        hself⟩
    obtain rfl := Option.some.inj hs'
    exact Nat.lt_succ_self 1
  | returning l msg =>
    change Prog.act (Access.unlock id) _ = Prog.act a k at hk
    cases hk
    cases hs.eq_exec (by simp)
    have hanswer : (Op.wake id l).exec d.state = (.ok msg, d.state.modify id (·.wake l)) := by
      rw [Op.exec, hch]
      exact congrArg (fun msg ↦ (Except.ok msg, _)) hagrees
    obtain ⟨hsteps, hrefines⟩ := h.leave hat hd hanswer (m := c.state.release id) rfl rfl rfl
      (fun _ _ ↦ rfl) hleave
    exact ⟨none, _, _, by simp, hsteps, rfl, hrefines⟩

theorem plain (h : Refines at' c d) {i : ι} (hi : ∀ id s, at' id ≠ some (i, s)) {o : Op}
    (ho : o.locks = none) {r : Except Exn o.Result} {q : Except Exn o.Result → Routine Reply}
    {m' : Memory b ι} {v' : World b} (hbeside : Beside at' m'.world v')
    (hmutex : m'.channelMutex_ = c.state.channelMutex_) (hs : Op.Step o d.state r v') :
    Refines at' ⟨m', update c.thread i ((q r).expand (Op.statements i))⟩
      ⟨v', update d.thread i (q r)⟩ := by
  refine ⟨hbeside, fun id ↦ ?_, fun id j s hat ↦ ?_, fun j hj ↦ ?_⟩
  · dsimp only
    rw [hmutex, h.mutex]
  · have hji : j ≠ i := by
      rintro rfl
      exact hi id s hat
    obtain ⟨ch, k, hch, hagrees, hd, hc⟩ := h.inside id j s hat
    obtain ⟨ch', hch', hlast⟩ := hs.lastMessage_eq ho hch
    dsimp only
    rw [update_of_ne hji, update_of_ne hji]
    exact ⟨ch', k, hch', hagrees.congr hlast, hd, hc⟩
  · dsimp only
    by_cases hji : j = i
    · subst hji
      rw [update_self, update_self]
    · rw [update_of_ne hji, update_of_ne hji]
      exact h.outside j hj

theorem step_outside (h : Refines at' c d) (hprovided : Provided d) {i : ι}
    (hi : ∀ id s, at' id ≠ some (i, s)) {a : Access ι}
    {k : Except Exn a.Result → Statements ι Reply}
    {r : Except Exn a.Result} {m' : Memory b ι} (hk : c.thread i = .act a k)
    (hs : Access.Step a c.state r m') : ∃ at'' l d', Pool.Steps Op.Step d l d' ∧
      tagged Action.outer l = tagged Access.outer [(i, ⟨c.state, a, r, m'⟩)] ∧
      Refines at'' ⟨m', update c.thread i (k r)⟩ d' := by
  have hc := h.outside i hi
  rw [hk] at hc
  cases hd : d.thread i with
  | done x =>
    rw [hd] at hc
    cases hc
  | raise e =>
    rw [hd] at hc
    cases hc
  | act o q =>
    rw [hd] at hc
    have hpresent : ∀ id, o.uses = some id → ∃ ch, d.state.channelMap id = some ch :=
      fun id huses ↦ Option.isSome_iff_exists.mp (hprovided i o q hd id huses)
    by_cases ho : o.locks = none
    · rw [Prog.expand_act, Op.statements_of_plain ho, Prog.act_bind] at hc
      cases hc
      obtain ⟨hstep, hmutex⟩ := hs.of_plain
      obtain ⟨v', hv', hbeside⟩ := hstep.beside ho h.state
      refine ⟨at', _, _, (Pool.Steps.nil d).snoc hd hv', ?_, h.plain hi ho hbeside hmutex hv'⟩
      simp [tagged, Action.outer, Access.outer, ho]
    cases o with
    | push id msg =>
      change Prog.act a k = Prog.act (Access.lock id i) _ at hc
      cases hc
      obtain ⟨ch, hch⟩ := hpresent id rfl
      obtain ⟨hfree, rfl, rfl⟩ := hs.of_lock
      exact ⟨_, [], d, .nil d, rfl, h.enter (s := .locked msg) hi hfree hd hch trivial rfl rfl rfl
        (fun _ _ ↦ rfl) (h.channel_of_free hfree hch)⟩
    | wait id l =>
      change Prog.act a k = Prog.act (Access.lock id i) _ at hc
      cases hc
      obtain ⟨ch, hch⟩ := hpresent id rfl
      obtain ⟨hfree, rfl, rfl⟩ := hs.of_lock
      exact ⟨_, [], d, .nil d, rfl, h.enter (s := .blocking l) hi hfree hd hch trivial rfl rfl rfl
        (fun _ _ ↦ rfl) (h.channel_of_free hfree hch)⟩
    | wake id l =>
      change Prog.act a k = Prog.act (Access.reacquire id i l) _ at hc
      cases hc
      obtain ⟨ch, hch⟩ := hpresent id rfl
      obtain ⟨hfree, rfl, rfl⟩ := hs.of_reacquire
      refine ⟨_, [], d, .nil d, rfl, h.enter (s := .woken l) hi hfree hd hch trivial rfl rfl rfl
        (fun id' hid' ↦ World.channelMap_modify_of_ne _ hid') ?_⟩
      change (c.state.world.modify id _).channelMap id = _
      rw [World.channelMap_modify_self, h.channel_of_free hfree hch]
      rfl
    | _ => exact absurd rfl ho

theorem step (h : Refines at' c d) (hprovided : Provided d) {i : ι} {a : Access ι}
    {k : Except Exn a.Result → Statements ι Reply} {r : Except Exn a.Result} {m' : Memory b ι}
    (hk : c.thread i = .act a k) (hs : Access.Step a c.state r m') :
    ∃ at'' l d', Pool.Steps Op.Step d l d' ∧
      tagged Action.outer l = tagged Access.outer [(i, ⟨c.state, a, r, m'⟩)] ∧
      Refines at'' ⟨m', update c.thread i (k r)⟩ d' := by
  by_cases hi : ∃ id s, at' id = some (i, s)
  · obtain ⟨id, s, hat⟩ := hi
    obtain ⟨x, l, d', _, hsteps, houter, hrefines⟩ := h.step_inside hat hk hs
    exact ⟨_, l, d', hsteps, houter, hrefines⟩
  · exact h.step_outside hprovided (fun id s hat ↦ hi ⟨id, s, hat⟩) hk hs

end Refines

/-! ## Runs -/

section Runs

variable [DecidableEq ι] {calls : ι → Request}
  {l : List (ι × Event (Access ι) Access.Result Exn (Memory b ι))}

/-- The server that does by actions what `c` does by statements. -/
def atomically (calls : ι → Request) (c : Pool ι (Access ι) Access.Result Exn Reply (Memory b ι)) :
    Pool ι Op Op.Result Exn Reply (World b) := ⟨c.state.world, fun i ↦ (calls i).handle⟩

theorem provided_of_steps {m : List (ι × Action b)} (hcalls : ∀ i, d.thread i = (calls i).handle)
    (h : Pool.Steps Op.Step d m d') : Provided d' := by
  intro i o k hk id huses
  have hnext := h.snoc hk (Op.step_exec o d'.state)
  refine present_of_view (hcalls i) hnext
    ⟨d'.state, o, (o.exec d'.state).1, (o.exec d'.state).2⟩ ?_ id huses
  rw [view_append, view_cons_self]
  simp

omit [DecidableEq ι] in
theorem refines_start (hcalls : ∀ i, c.thread i = (calls i).statements i)
    (hfree : ∀ id, c.state.channelMutex_ id = none) :
    Refines (fun _ ↦ none) c (atomically calls c) := by
  refine ⟨⟨rfl, rfl, fun id ↦ ?_, fun _ _ ↦ rfl⟩, hfree, by simp, fun i _ ↦ hcalls i⟩
  rw [effectOf_none]
  exact Option.map_id'.symm

/-- **A run of statements is a run of actions.** -/
theorem exists_refined (hcalls : ∀ i, c.thread i = (calls i).statements i)
    (hfree : ∀ id, c.state.channelMutex_ id = none) (h : Pool.Steps Access.Step c l c') :
    ∃ at' m d', Pool.Steps Op.Step (atomically calls c) m d' ∧
      tagged Action.outer m = tagged Access.outer l ∧ Refines at' c' d' := by
  induction h with
  | nil => exact ⟨_, [], _, .nil _, rfl, refines_start hcalls hfree⟩
  | @snoc c' l i a k r m' _ hk hs ih =>
    obtain ⟨at', m, d', hsteps, houter, hrefines⟩ := ih
    obtain ⟨at'', m₂, d'', hsteps₂, houter₂, hrefines₂⟩ :=
      hrefines.step (provided_of_steps (fun _ ↦ rfl) hsteps) hk hs
    refine ⟨at'', m ++ m₂, d'', hsteps.append hsteps₂, ?_, hrefines₂⟩
    rw [tagged, List.filterMap_append, tagged, List.filterMap_append]
    exact congrArg₂ _ houter houter₂

/-- What the run of actions `m` to `d'` says of the run of statements `l` to `c'`. -/
structure Refined (c' : Pool ι (Access ι) Access.Result Exn Reply (Memory b ι))
    (l : List (ι × Event (Access ι) Access.Result Exn (Memory b ι)))
    (d' : Pool ι Op Op.Result Exn Reply (World b)) (m : List (ι × Action b)) : Prop where
  /-- Statements, map operations, notifications and writes come in the same order, with the same
  answers. -/
  outer : tagged Action.outer m = tagged Access.outer l
  reply : ∀ i reply, c'.thread i = .done reply ↔ d'.thread i = .done reply
  db : c'.state.world.db = d'.state.db
  /-- Nobody who holds the mutex of a channel sees a difference. -/
  channel : ∀ id, c'.state.channelMutex_ id = none →
    c'.state.world.channelMap id = d'.state.channelMap id

/-- **The sections under a mutex may be taken for single actions.** Whatever a server does statement
by statement, from a state in which the mutexes are free, the server that does the sections at once
can do, with the same answers in the same order, the same replies, the same database, and the same
channels wherever nobody is inside a section. -/
theorem refined (hcalls : ∀ i, c.thread i = (calls i).statements i)
    (hfree : ∀ id, c.state.channelMutex_ id = none) (h : Pool.Steps Access.Step c l c') :
    ∃ m d', Pool.Steps Op.Step (atomically calls c) m d' ∧ Refined c' l d' m := by
  obtain ⟨at', m, d', hsteps, houter, hrefines⟩ := exists_refined hcalls hfree h
  refine ⟨m, d', hsteps, houter, fun i reply ↦ ?_, hrefines.state.db, fun id hfree ↦ ?_⟩
  · by_cases hi : ∃ id s, at' id = some (i, s)
    · -- whoever is inside a section has not finished on either level
      obtain ⟨id, s, hat⟩ := hi
      obtain ⟨_, k, _, _, hd, hc⟩ := hrefines.inside id i s hat
      refine iff_of_false (fun hdone ↦ ?_) fun hdone ↦ ?_
      · rw [hc] at hdone
        cases s <;> cases hdone
      · rw [hd] at hdone
        cases hdone
    · rw [hrefines.outside i fun id s hat ↦ hi ⟨id, s, hat⟩]
      exact Prog.expand_eq_done_iff (Op.outcome_statements i)
  · rw [hrefines.mutex, Option.map_eq_none_iff] at hfree
    rw [hrefines.state.channel, hfree, effectOf_none]
    exact Option.map_id'

end Runs

/-! ## A listener and a sender -/

def correspondents : Bool → Request
  | true => .ListenWrongthinkMessages 1 0 1
  | false => .SendWrongthinkMessageWeb ⟨"ann", "", 1, 1, 0, 0, false, "hello", 0, 0⟩

/-- They meet in a channel that has been created. -/
def correspondence : Pool Bool (Access Bool) Access.Result Exn Reply (Memory .postgres Bool) where
  state := .free (serve (World.start .postgres 0) [.CreateUser ⟨"ann", "pw", false⟩,
    .CreateWrongthinkCommunity ⟨"all", 1, true⟩, .CreateWrongthinkChannel ⟨"main", 1, false, 1⟩]).2
  thread i := (correspondents i).statements i

theorem correspondence_thread (i : Bool) :
    correspondence.thread i = (correspondents i).statements i := rfl

/-- The listener has blocked, and the sender is inside `appendMessage`. -/
def appending : List Bool := List.replicate 7 true ++ List.replicate 4 false

theorem refined_correspondence :
    let played := Pool.replayWhere Access.exec correspondence appending
    ∃ m d', Pool.Steps Op.Step (atomically correspondents correspondence) m d' ∧
      Refined played.2 played.1 d' m :=
  refined correspondence_thread (fun _ ↦ rfl) (Pool.replayWhere_sound Access.step_exec _ _)

end Wrongthink
