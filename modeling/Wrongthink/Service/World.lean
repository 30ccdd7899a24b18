import Mathlib.Logic.Function.Basic
import Wrongthink.Concurrent.Pool
import Wrongthink.Service.Protocol
import Wrongthink.Store.Statement

/-!
# The state of the server and its atomic actions

The server's handlers share the database, the `channelMap` and the clock. An action is one step
that the code itself does not cut further: one SQL statement, one operation of the `std::map`, one
section under a channel's mutex, one `notify_all`. Everything a handler does is a program over
these actions, so its interleavings with the other handlers are the pools of `Concurrent.Pool`.

## What is left open

A step first lets the surroundings move: the clock may read anything, and the engine may have drawn
sequence values that no row carries. A statement may also not run at all, when the session or the
connection fails; then it raises and changes nothing. What holds for every such step holds whatever
the clock, the sequences and the connection do.

A thread may return from a wait whether or not it was notified, as for any
`std::condition_variable`. Which of the returns are answers to a notification matters for delivery
only, and is kept apart in `Wrongthink.Live.Delivery`.
-/

namespace Wrongthink

open Concurrent Function

/-! ## The state -/

/-- Threads, as the condition variables know them. -/
abbrev ThreadId := ℕ

structure World (b : Backend) where
  db : Database b
  channelMap : ℤ → Option (SynchronizedChannel ThreadId)
  now : ℤ

namespace World

variable {b : Backend}

/-- A server that has just been started on cleared tables. -/
def start (b : Backend) (now : ℤ) : World b := ⟨Database.fresh b none, fun _ ↦ none, now⟩

/-- Apply `f` to the entry of `channelMap` that a reference points to. -/
def modify (id : ℤ) (f : SynchronizedChannel ThreadId → SynchronizedChannel ThreadId)
    (w : World b) : World b :=
  { w with channelMap := update w.channelMap id ((w.channelMap id).map f) }

/-- Put an entry at `id` unless there is one. -/
def insertNew (id : ℤ) (ch : SynchronizedChannel ThreadId) (w : World b) : World b :=
  { w with channelMap := update w.channelMap id (some ((w.channelMap id).getD ch)) }

/-- What may have moved since the last step. -/
structure Drift where
  now : ℤ
  gaps : Tables.Gaps

def drift (d : Drift) (w : World b) : World b :=
  { w with db := w.db.skip d.gaps, now := d.now }

/-- No movement. -/
def still (w : World b) : Drift := ⟨w.now, ⟨0, 0, 0, 0⟩⟩

@[simp] theorem channelMap_drift (d : Drift) (w : World b) :
    (w.drift d).channelMap = w.channelMap := rfl

section Entries

variable {id id' : ℤ} {f : SynchronizedChannel ThreadId → SynchronizedChannel ThreadId}
  {ch : SynchronizedChannel ThreadId} (w : World b)

@[simp] theorem channelMap_modify_self :
    (w.modify id f).channelMap id = (w.channelMap id).map f := update_self _ _ _

@[simp] theorem channelMap_modify_of_ne (h : id' ≠ id) :
    (w.modify id f).channelMap id' = w.channelMap id' := update_of_ne h _ _

@[simp] theorem channelMap_insertNew_self :
    (w.insertNew id ch).channelMap id = some ((w.channelMap id).getD ch) := update_self _ _ _

@[simp] theorem channelMap_insertNew_of_ne (h : id' ≠ id) :
    (w.insertNew id ch).channelMap id' = w.channelMap id' := update_of_ne h _ _

end Entries

end World

/-! ## Actions -/

inductive Op where
  /-- `getSociSession()`, and `sql.prepare`: no effect, but it may raise. -/
  | session
  | sql (q : Statement)
  /-- `std::time(nullptr)` -/
  | time
  /-- `channelMap.count(id)` -/
  | count (id : ℤ)
  /-- `channelMap.emplace(id, (id, name))` -/
  | emplace (id : ℤ) (name : String)
  /-- `channelMap[id]` -/
  | index (id : ℤ)
  | push (id : ℤ) (msg : WrongthinkMessage)
  | notifyAll (id : ℤ)
  | wait (id : ℤ) (l : ThreadId)
  | wake (id : ℤ) (l : ThreadId)
  /-- `writer->Write(msg)` -/
  | write (msg : WrongthinkMessage)
  /-- `serverContext->TryCancel()` -/
  | tryCancel
  /-- `methods->Proceed()` -/
  | proceed
  /-- The code has no defined behaviour from here on. -/
  | undefined
  deriving DecidableEq

namespace Op

abbrev Result : Op → Type
  | sql q => q.Result
  | time => ℤ
  | count _ => ℕ
  | wake _ _ => WrongthinkMessage
  | _ => Unit

/-- The actions that go to the database, and may fail with it. -/
def store : Op → Bool
  | session | sql _ => true
  | _ => false

variable {b : Backend}

def exec : (o : Op) → World b → Except Exn o.Result × World b
  | sql q, w => ((w.db.exec w.now q).1, { w with db := (w.db.exec w.now q).2 })
  | time, w => (.ok w.now, w)
  | count id, w => (.ok (if (w.channelMap id).isSome then 1 else 0), w)
  -- `emplace` and `operator[]` leave an entry that is there alone
  | emplace id name, w => (.ok (), w.insertNew id (.new id name))
  | index id, w => (.ok (), w.insertNew id default)
  | push id msg, w => (.ok (), w.modify id (·.push msg))
  | notifyAll id, w => (.ok (), w.modify id (·.notifyAll))
  | wait id l, w => (.ok (), w.modify id (·.wait l))
  | wake id l, w => (.ok ((w.channelMap id).getD default).lastMessage_, w.modify id (·.wake l))
  | session, w => (.ok (), w)
  | write _, w => (.ok (), w)
  | tryCancel, w => (.ok (), w)
  | proceed, w => (.ok (), w)
  | undefined, w => (.ok (), w)

@[simp] theorem now_exec (o : Op) (w : World b) : (o.exec w).2.now = w.now := by
  cases o <;> rfl

/-- One step of the server: things drift, and then the action runs or is lost. -/
inductive Step : Semantics Op Op.Result Exn (World b) where
  | exec (d : World.Drift) (o w) : Step o w (o.exec (w.drift d)).1 (o.exec (w.drift d)).2
  | lost (d : World.Drift) (o w) (h : o.store = true) :
      Step o w (.error .connectionFailure) (w.drift d)

variable {o : Op} {q : Statement} {w w' : World b} {r : Except Exn o.Result}

/-- **Inversion.** What a step can have been. -/
theorem Step.cases (h : Step o w r w') :
    ∃ d : World.Drift, (r = (o.exec (w.drift d)).1 ∧ w' = (o.exec (w.drift d)).2) ∨
      (o.store = true ∧ r = .error .connectionFailure ∧ w' = w.drift d) := by
  cases h with
  | exec d _ _ => exact ⟨d, .inl ⟨rfl, rfl⟩⟩
  | lost d _ _ hstore => exact ⟨d, .inr ⟨hstore, rfl, rfl⟩⟩

theorem Step.ok {v : o.Result} (h : Step o w (.ok v) w') :
    ∃ d : World.Drift, .ok v = (o.exec (w.drift d)).1 ∧ w' = (o.exec (w.drift d)).2 := by
  obtain ⟨d, h | ⟨_, hr, _⟩⟩ := h.cases
  · exact ⟨d, h⟩
  · cases hr

/-- An action that does not fail by itself fails with the connection. -/
theorem Step.error_eq {e : Exn} (h : Step o w (.error e) w')
    (ho : ∀ w : World b, ∃ v, (o.exec w).1 = .ok v) : e = .connectionFailure := by
  obtain ⟨d, ⟨hr, _⟩ | ⟨_, hr, _⟩⟩ := h.cases
  · obtain ⟨v, hv⟩ := ho (w.drift d)
    rw [hv] at hr
    cases hr
  · exact Except.error.inj hr

theorem Step.ok_of_not_store (h : Step o w r w') (ho : o.store = false) : ∃ v, r = .ok v := by
  obtain ⟨d, ⟨rfl, _⟩ | ⟨hstore, _, _⟩⟩ := h.cases
  · cases o with
    | session | sql q => cases ho
    | _ => exact ⟨_, rfl⟩
  · rw [ho] at hstore
    cases hstore

/-- A statement that is lost is one that had no effect. -/
theorem Step.effect_now {r : Except Exn q.Result} (h : Step (.sql q) w r w') :
    ∃ gaps, Statement.Effect b w'.now (w.db.toTables.skip gaps) q r w'.db.toTables := by
  obtain ⟨d, ⟨rfl, rfl⟩ | ⟨_, rfl, rfl⟩⟩ := h.cases
  · exact ⟨d.gaps, (w.drift d).db.exec_effect d.now q⟩
  · exact ⟨d.gaps, .same q _ (.inr ⟨_, rfl⟩)⟩

theorem Step.effect {r : Except Exn q.Result} (h : Step (.sql q) w r w') :
    ∃ now gaps, Statement.Effect b now (w.db.toTables.skip gaps) q r w'.db.toTables :=
  ⟨w'.now, h.effect_now⟩

theorem step_exec_at (t : ℤ) (o : Op) (w : World b) :
    Step o w (o.exec { w with now := t }).1 (o.exec { w with now := t }).2 := by
  have h := Step.exec { w.still with now := t } o w
  have hw : w.drift { w.still with now := t } = { w with now := t } := by
    simp [World.drift, World.still, Database.skip, Tables.skip]
  rw [hw] at h
  exact h

theorem step_exec (o : Op) (w : World b) : Step o w (o.exec w).1 (o.exec w).2 :=
  step_exec_at w.now o w

end Op

/-! ## Frames -/

namespace Op

/-- The table that an action changes when it does not raise. -/
def target : Op → Option Table
  | sql q => q.target
  | _ => none

/-- The channel that an action looks up or works on, by its id. -/
def channel : Op → Option ℤ
  | sql (.selectChannelName id) | sql (.insertMessage _ id _ _ _) => some id
  | count id | emplace id _ | index id => some id
  | push id _ | notifyAll id | wait id _ | wake id _ => some id
  | _ => none

theorem eq_of_target_message {o : Op} (h : o.target = some .message) :
    ∃ user_id channel thread_id thread_child mtext,
      o = .sql (.insertMessage user_id channel thread_id thread_child mtext) := by
  cases o with
  | sql q =>
    cases q with
    | insertMessage user_id channel thread_id thread_child mtext =>
      exact ⟨user_id, channel, thread_id, thread_child, mtext, rfl⟩
    | _ => cases h
  | _ => cases h

variable {b : Backend} {o : Op} {w w' : World b} {r : Except Exn o.Result}

theorem Step.frame (h : Step o w r w') (T : Table) (hT : o.target ≠ some T) :
    w'.db.rows T = w.db.rows T := by
  cases h with
  | lost d _ _ _ => exact w.db.rows_skip d.gaps T
  | exec d _ _ =>
    rw [← w.db.rows_skip d.gaps T]
    cases o with
    | sql q => exact ((w.drift d).db.exec_effect (w.drift d).now q).frame T hT
    | _ => rfl

end Op

/-- A routine of the server: a program over its actions. -/
abbrev Routine (α : Type) := Prog Op Op.Result Exn α

/-- One performed action of the server. -/
abbrev Action (b : Backend) := Event Op Op.Result Exn (World b)

abbrev perform (o : Op) : Routine o.Result := Prog.perform o

/-- Send a statement. -/
abbrev sql (q : Statement) : Routine q.Result := perform (.sql q)

/-! ## What only grows -/

namespace World

variable {b : Backend}

/-- The rows of the append-only tables stay, and so do the channels of the map, with their
descriptions and everything appended to them. -/
structure Grows (w w' : World b) : Prop where
  db : w.db.toTables.Grows w'.db.toTables
  channelMap : ∀ id ch, w.channelMap id = some ch → ∃ ch', w'.channelMap id = some ch' ∧
    ch'.wtChannel_ = ch.wtChannel_ ∧ ch.msgVector_ <+: ch'.msgVector_

instance : IsPreorder (World b) Grows where
  refl w := ⟨Tables.Grows.refl _, fun _ ch h ↦ ⟨ch, h, rfl, List.prefix_refl _⟩⟩
  trans w₁ w₂ w₃ h h' := by
    refine ⟨h.db.trans h'.db, fun id ch hch ↦ ?_⟩
    obtain ⟨ch₂, h₂, hwt₂, hpre₂⟩ := h.channelMap id ch hch
    obtain ⟨ch₃, h₃, hwt₃, hpre₃⟩ := h'.channelMap id ch₂ h₂
    exact ⟨ch₃, h₃, hwt₃.trans hwt₂, hpre₂.trans hpre₃⟩

theorem grows_drift (d : Drift) (w : World b) : w.Grows (w.drift d) :=
  ⟨Tables.grows_skip _ _, fun _ ch h ↦ ⟨ch, h, rfl, List.prefix_refl _⟩⟩

theorem grows_modify {id : ℤ} {f : SynchronizedChannel ThreadId → SynchronizedChannel ThreadId}
    (hf : ∀ ch, (f ch).wtChannel_ = ch.wtChannel_ ∧ ch.msgVector_ <+: (f ch).msgVector_)
    (w : World b) : w.Grows (w.modify id f) := by
  refine ⟨Tables.Grows.refl _, fun id' ch hch ↦ ?_⟩
  by_cases hid : id' = id
  · subst hid
    exact ⟨f ch, by rw [channelMap_modify_self, hch, Option.map_some], hf ch⟩
  · exact ⟨ch, by rw [channelMap_modify_of_ne w hid, hch], rfl, List.prefix_refl _⟩

theorem grows_insertNew {id : ℤ} {new : SynchronizedChannel ThreadId} (w : World b) :
    w.Grows (w.insertNew id new) := by
  refine ⟨Tables.Grows.refl _, fun id' ch hch ↦ ⟨ch, ?_, rfl, List.prefix_refl _⟩⟩
  by_cases hid : id' = id
  · subst hid
    rw [channelMap_insertNew_self, hch, Option.getD_some]
  · rw [channelMap_insertNew_of_ne w hid, hch]

end World

theorem Op.exec_grows {b : Backend} (o : Op) (w : World b) : w.Grows (o.exec w).2 := by
  cases o with
  | sql q => exact ⟨(w.db.exec_effect w.now q).grows, fun _ ch h ↦ ⟨ch, h, rfl, List.prefix_refl _⟩⟩
  | emplace id name => exact w.grows_insertNew
  | index id => exact w.grows_insertNew
  | push id msg =>
    apply World.grows_modify
    exact fun ch ↦ ⟨rfl, List.prefix_append _ _⟩
  | notifyAll id | wait id l | wake id l =>
    apply World.grows_modify
    exact fun ch ↦ ⟨rfl, List.prefix_refl _⟩
  | _ => exact refl_of World.Grows w

/-- **Every step grows the world.** -/
theorem Op.Step.grows {b : Backend} {o : Op} {w w' : World b} {r : Except Exn o.Result}
    (h : Op.Step o w r w') : w.Grows w' := by
  cases h with
  | exec d _ _ => exact trans_of World.Grows (w.grows_drift d) (o.exec_grows _)
  | lost d _ _ _ => exact w.grows_drift d

theorem grows_of_steps {b : Backend} {ι α : Type} [DecidableEq ι]
    {c c' : Pool ι Op Op.Result Exn α (World b)} {l : List (ι × Action b)}
    (h : Pool.Steps Op.Step c l c') {x : ι × Action b} (hx : x ∈ l) :
    x.2.before.Grows c'.state ∧ x.2.after.Grows c'.state := by
  have hrun := h.run.le (R := World.Grows) fun _ _ hs ↦ hs.grows
  obtain ⟨_, hs, hend⟩ := hrun.2 x.2 (List.mem_map_of_mem hx)
  exact ⟨trans_of World.Grows hs hend, hend⟩

end Wrongthink
