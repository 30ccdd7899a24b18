import Mathlib.Data.Set.Insert
import Mathlib.Data.List.Basic

/-!
# Waiting for the last value

Writers append values to a log and then notify a condition variable; a reader blocks on it, and once
it has been woken it takes the *last* value of the log and writes it out. The wait has no predicate,
so nothing but the notification tells the reader that there is something new, and nothing tells it
how much.

## What comes out

Two things can go wrong. A value that is appended while the reader is not blocked goes unheard, and
if another one follows before the reader looks, it is lost. And a notification that comes late, for
a value appended before the reader blocked, hands the reader a value that it may already have had.

If the reader only blocks when no notification is outstanding, the second cannot happen, and what
comes out is a sublist of the log (`Reach.behind`). If, moreover, each append notifies at once, what
comes out is the log itself exactly if every value was heard (`Reach.written_eq_appended_iff`).
-/

namespace Concurrent

variable {τ μ : Type}

/-! ## The reader -/

/-- Where the reader is: not waiting, blocked, woken but not yet back, or about to write a value. -/
inductive Mode (μ : Type) where
  | away
  | blocked
  | woken
  | holding (m : μ)

namespace Mode

/-- A notification reaches a reader that is blocked. -/
def notified : Mode μ → Mode μ
  | blocked => woken
  | mode => mode

/-- The value in hand. -/
def held : Mode μ → List μ
  | holding m => [m]
  | _ => []

/-- How many values are on their way. -/
def due : Mode μ → ℕ
  | woken | holding _ => 1
  | _ => 0

def isBlocked : Mode μ → Bool
  | blocked => true
  | _ => false

end Mode

/-- A reader of values `μ` and its writers `τ`. -/
structure Listener (τ μ : Type) where
  mode : Mode μ
  /-- It has blocked before. -/
  started : Bool
  /-- The last value of the log. -/
  last : μ
  /-- The writers that have appended and not yet notified. -/
  pending : Set τ
  /-- What has been appended since the reader first blocked. -/
  appended : List μ
  /-- How often that was when it was blocked. -/
  heard : ℕ
  written : List μ

def Listener.init (m : μ) : Listener τ μ := ⟨.away, false, m, ∅, [], 0, []⟩

inductive Signal (τ μ : Type) where
  | append (j : τ) (m : μ)
  | notify (j : τ)
  | wait
  | wake
  | write (m : μ)

namespace Signal

def enabled : Signal τ μ → Listener τ μ → Prop
  | append j _, s => j ∉ s.pending
  | notify j, s => j ∈ s.pending
  | wait, s => s.mode = .away
  | wake, s => s.mode = .woken
  | write m, s => s.mode = .holding m

def apply : Signal τ μ → Listener τ μ → Listener τ μ
  | append j m, s =>
    { s with
      last := m
      pending := insert j s.pending
      appended := if s.started then s.appended ++ [m] else s.appended
      heard := if s.mode.isBlocked then s.heard + 1 else s.heard }
  | notify j, s => { s with mode := s.mode.notified, pending := s.pending \ {j} }
  | wait, s => { s with mode := .blocked, started := true }
  | wake, s => { s with mode := .holding s.last }
  | write m, s => { s with mode := .away, written := s.written ++ [m] }

/-- The reader blocks only when no notification is outstanding. -/
def Calm (e : Signal τ μ) (s : Listener τ μ) : Prop := e = .wait → s.pending = ∅

/-- An append is followed by its notification at once. -/
def Atomic (e : Signal τ μ) (s : Listener τ μ) : Prop := ∀ j ∈ s.pending, e = .notify j

theorem Atomic.calm {e : Signal τ μ} {s : Listener τ μ} (h : e.Atomic s) : e.Calm s := by
  rintro rfl
  rw [Set.eq_empty_iff_forall_notMem]
  intro j hj
  cases h j hj

end Signal

/-- What a reader can come to in a run whose steps all satisfy `G`. -/
inductive Reach (G : Signal τ μ → Listener τ μ → Prop) : Listener τ μ → Prop where
  | init (m : μ) : Reach G (.init m)
  | step {s : Listener τ μ} (e : Signal τ μ) : Reach G s → e.enabled s → G e s → Reach G (e.apply s)

theorem Reach.mono {G G' : Signal τ μ → Listener τ μ → Prop} {s : Listener τ μ} (h : Reach G s)
    (hG : ∀ e s, G e s → G' e s) : Reach G' s := by
  induction h with
  | init m => exact .init m
  | step e _ he hGe ih => exact .step e ih he (hG e _ hGe)

/-! ## Nothing twice -/

/-- The log splits into an old part, from which everything written so far comes, and a new part; and
the new part is not empty once the reader has been woken, or is about to be. -/
structure Listener.Behind (s : Listener τ μ) : Prop where
  last : s.appended ≠ [] → s.appended.getLast? = some s.last
  fresh : s.started = false → s.appended = [] ∧ s.mode = .away
  split : ∃ old new, s.appended = old ++ new ∧ (s.written ++ s.mode.held).Sublist old ∧
    (s.mode = .blocked → s.pending.Nonempty → new ≠ []) ∧ (s.mode = .woken → new ≠ [])

namespace Listener.Behind

variable {s : Listener τ μ}

theorem init (m : μ) : (Listener.init m : Listener τ μ).Behind :=
  ⟨fun h ↦ absurd rfl h, fun _ ↦ ⟨rfl, rfl⟩, [], [], rfl, List.nil_sublist _, nofun, nofun⟩

theorem append (h : s.Behind) (j : τ) (m : μ) : ((Signal.append j m).apply s).Behind := by
  obtain ⟨hlast, hfresh, old, new, hsplit, hwritten, hblocked, hwoken⟩ := h
  cases hstarted : s.started with
  | true =>
    have happended : ((Signal.append j m).apply s).appended = s.appended ++ [m] := if_pos hstarted
    have hstarted' : ((Signal.append j m).apply s).started = true := hstarted
    refine ⟨fun _ ↦ ?_, fun hnot ↦ ?_, old, new ++ [m], ?_, hwritten, fun _ _ ↦ ?_, fun _ ↦ ?_⟩
    · rw [happended, List.getLast?_concat]
      rfl
    · rw [hstarted'] at hnot
      cases hnot
    · rw [happended, hsplit, List.append_assoc]
    · exact List.append_ne_nil_of_right_ne_nil _ (List.cons_ne_nil _ _)
    · exact List.append_ne_nil_of_right_ne_nil _ (List.cons_ne_nil _ _)
  | false =>
    -- a reader that has not blocked yet has nothing to hear
    have hmode : s.mode = .away := (hfresh hstarted).2
    have happended : ((Signal.append j m).apply s).appended = s.appended := by
      rw [Signal.apply, hstarted]
      rfl
    refine ⟨fun hne ↦ ?_, fun _ ↦ ?_, old, new, ?_, hwritten, fun hb ↦ ?_, fun hw ↦ ?_⟩
    · rw [happended] at hne
      exact absurd (hfresh hstarted).1 hne
    · rw [happended]
      exact hfresh hstarted
    · rw [happended, hsplit]
    · have hb' : s.mode = .blocked := hb
      rw [hmode] at hb'
      cases hb'
    · have hw' : s.mode = .woken := hw
      rw [hmode] at hw'
      cases hw'

theorem notify (h : s.Behind) {j : τ} (hj : j ∈ s.pending) :
    ((Signal.notify j).apply s).Behind := by
  obtain ⟨hlast, hfresh, old, new, hsplit, hwritten, hblocked, hwoken⟩ := h
  have hheld : s.mode.notified.held = s.mode.held := by cases s.mode <;> rfl
  have hmode : s.mode.notified ≠ .blocked := by cases s.mode <;> exact nofun
  refine ⟨hlast, fun hnot ↦ ?_, old, new, hsplit, ?_, fun hb ↦ absurd hb hmode, fun hw ↦ ?_⟩
  · obtain ⟨hnil, haway⟩ := hfresh hnot
    refine ⟨hnil, ?_⟩
    rw [Signal.apply, haway]
    rfl
  · rw [Signal.apply, hheld]
    exact hwritten
  · cases hs : s.mode with
    | blocked => exact hblocked hs ⟨j, hj⟩
    | woken => exact hwoken hs
    | away | holding m =>
      rw [Signal.apply, hs] at hw
      cases hw

theorem wait (h : s.Behind) (hmode : s.mode = .away) (hcalm : s.pending = ∅) :
    (Signal.wait.apply s).Behind := by
  obtain ⟨hlast, _, old, new, hsplit, hwritten, _, _⟩ := h
  refine ⟨hlast, nofun, s.appended, [], (List.append_nil _).symm, ?_, fun _ hp ↦ ?_, nofun⟩
  · rw [hmode] at hwritten
    rw [hsplit]
    exact hwritten.trans (List.sublist_append_left _ _)
  · rw [Signal.apply, hcalm] at hp
    exact absurd hp Set.not_nonempty_empty

theorem wake (h : s.Behind) (hmode : s.mode = .woken) : (Signal.wake.apply s).Behind := by
  obtain ⟨hlast, hfresh, old, new, hsplit, hwritten, _, hwoken⟩ := h
  have hnew : new ≠ [] := hwoken hmode
  have happended : s.appended ≠ [] := by
    rw [hsplit]
    exact List.append_ne_nil_of_right_ne_nil _ hnew
  -- the last value is in the new part
  have hmem : s.last ∈ new := by
    have hlast' := hlast happended
    rw [hsplit, List.getLast?_append_of_ne_nil _ hnew] at hlast'
    exact List.mem_of_getLast? hlast'
  rw [hmode] at hwritten
  have hwritten' : s.written.Sublist old := by
    rw [← List.append_nil s.written]
    exact hwritten
  refine ⟨hlast, fun hnot ↦ absurd (hfresh hnot).1 happended, s.appended, [],
    (List.append_nil _).symm, ?_, nofun, nofun⟩
  rw [hsplit]
  exact hwritten'.append (List.singleton_sublist.mpr hmem)

theorem write (h : s.Behind) {m : μ} (hmode : s.mode = .holding m) :
    ((Signal.write m).apply s).Behind := by
  obtain ⟨hlast, hfresh, old, new, hsplit, hwritten, _, _⟩ := h
  refine ⟨hlast, fun hnot ↦ ⟨(hfresh hnot).1, rfl⟩, old, new, hsplit, ?_, nofun, nofun⟩
  rw [hmode] at hwritten
  have hheld : ((Signal.write m).apply s).written ++ ((Signal.write m).apply s).mode.held =
      s.written ++ [m] := List.append_nil _
  rw [hheld]
  exact hwritten

end Listener.Behind

/-- **Sublist.** In a calm run everything is written once and in order. -/
theorem Reach.behind {s : Listener τ μ} (h : Reach Signal.Calm s) : s.Behind := by
  induction h with
  | init m => exact .init m
  | step e _ he hcalm ih =>
    cases e with
    | append j m => exact ih.append j m
    | notify j => exact ih.notify he
    | wait => exact ih.wait he (hcalm rfl)
    | wake => exact ih.wake he
    | write m => exact ih.write he

theorem Listener.Behind.sublist_appended {s : Listener τ μ} (h : s.Behind) :
    s.written.Sublist s.appended := by
  obtain ⟨old, new, hsplit, hwritten, _⟩ := h.split
  rw [hsplit]
  exact ((List.sublist_append_left _ _).trans hwritten).trans (List.sublist_append_left _ _)

/-! ## Nothing lost -/

/-- Every value that was heard has been written, or is on its way. -/
structure Listener.Counted (s : Listener τ μ) : Prop where
  ringing : s.mode = .blocked → s.pending.Nonempty → s.heard = s.written.length + 1
  quiet : (s.mode = .blocked → s.pending = ∅) → s.heard = s.written.length + s.mode.due

namespace Listener.Counted

variable {s : Listener τ μ}

/-- Between an append and its notification nothing else happens. -/
private theorem pending_eq_empty {e : Signal τ μ} (hatomic : e.Atomic s)
    (he : ∀ j, e ≠ .notify j) : s.pending = ∅ := by
  rw [Set.eq_empty_iff_forall_notMem]
  intro j hj
  exact he j (hatomic j hj)

theorem append (h : s.Counted) {j : τ} {m : μ} (hatomic : (Signal.append j m).Atomic s) :
    ((Signal.append j m).apply s).Counted := by
  have hheard := h.quiet fun _ ↦ pending_eq_empty hatomic nofun
  have hpending : ((Signal.append j m).apply s).pending.Nonempty := ⟨j, Set.mem_insert _ _⟩
  have hnot : ((Signal.append j m).apply s).pending ≠ ∅ := hpending.ne_empty
  cases hmode : s.mode with
  | blocked =>
    rw [hmode] at hheard
    refine ⟨fun _ _ ↦ ?_, fun hquiet ↦ absurd (hquiet hmode) hnot⟩
    simp only [Signal.apply, hmode, Mode.isBlocked, if_true]
    rw [hheard]
    rfl
  | away | woken | holding m' =>
    refine ⟨fun hb ↦ ?_, fun _ ↦ ?_⟩
    · have hb' : s.mode = .blocked := hb
      rw [hmode] at hb'
      cases hb'
    · rw [hmode] at hheard
      simp only [Signal.apply, hmode, Mode.isBlocked]
      exact hheard

theorem notify (h : s.Counted) {j : τ} (hj : j ∈ s.pending) :
    ((Signal.notify j).apply s).Counted := by
  have hmode : s.mode.notified ≠ .blocked := by cases s.mode <;> exact nofun
  refine ⟨fun hb ↦ absurd hb hmode, fun _ ↦ ?_⟩
  cases hs : s.mode with
  | blocked =>
    have hheard := h.ringing hs ⟨j, hj⟩
    simp only [Signal.apply, hs]
    exact hheard
  | away | woken | holding m =>
    have hheard := h.quiet fun hb ↦ by
      rw [hs] at hb
      cases hb
    rw [hs] at hheard
    simp only [Signal.apply, hs]
    exact hheard

theorem wait (h : s.Counted) (hmode : s.mode = .away) (hatomic : Signal.wait.Atomic s) :
    (Signal.wait.apply s).Counted := by
  have hempty : s.pending = ∅ := pending_eq_empty hatomic nofun
  have hheard := h.quiet fun _ ↦ hempty
  rw [hmode] at hheard
  exact ⟨fun _ hp ↦ absurd hempty hp.ne_empty, fun _ ↦ hheard⟩

theorem wake (h : s.Counted) (hmode : s.mode = .woken) : (Signal.wake.apply s).Counted := by
  have hheard := h.quiet fun hb ↦ by
    rw [hmode] at hb
    cases hb
  rw [hmode] at hheard
  exact ⟨nofun, fun _ ↦ hheard⟩

theorem write (h : s.Counted) {m : μ} (hmode : s.mode = .holding m) :
    ((Signal.write m).apply s).Counted := by
  have hheard := h.quiet fun hb ↦ by
    rw [hmode] at hb
    cases hb
  rw [hmode] at hheard
  refine ⟨nofun, fun _ ↦ ?_⟩
  rw [Signal.apply, List.length_append, List.length_singleton]
  exact hheard

end Listener.Counted

theorem Reach.counted {s : Listener τ μ} (h : Reach Signal.Atomic s) : s.Counted := by
  induction h with
  | init m => exact ⟨nofun, fun _ ↦ rfl⟩
  | step e _ he hatomic ih =>
    cases e with
    | append j m => exact ih.append hatomic
    | notify j => exact ih.notify he
    | wait => exact ih.wait he hatomic
    | wake => exact ih.wake he
    | write m => exact ih.write he

/-- **Exactly once.** When the reader is blocked again and no notification is outstanding, it has
written the log if and only if it has heard each of its values. -/
theorem Reach.written_eq_appended_iff {s : Listener τ μ} (h : Reach Signal.Atomic s)
    (hmode : s.mode = .blocked) (hpending : s.pending = ∅) :
    s.written = s.appended ↔ s.heard = s.appended.length := by
  have hheard : s.heard = s.written.length := by
    have hquiet := h.counted.quiet fun _ ↦ hpending
    rw [hmode] at hquiet
    exact hquiet
  have hsublist := (h.mono fun _ _ ↦ Signal.Atomic.calm).behind.sublist_appended
  rw [hheard]
  constructor
  · intro heq
    rw [heq]
  · exact hsublist.eq_of_length

end Concurrent
