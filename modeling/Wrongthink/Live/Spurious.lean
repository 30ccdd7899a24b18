import Wrongthink.Live.Listening
import Wrongthink.Service.Serve

/-!
# Returns from the wait that nobody has asked for

`waitMessage` calls `channelCondition_.wait(lock)` without a predicate and hands out `lastMessage_`
whatever has let it go. The steps here are those of `Op.Step` in full, so a blocked listener may
return at any time, as the semantics of a condition variable allows.

What it hands out is a message that was appended since it blocked, and no append is handed out
twice, if and only if no return finds the log of the channel as it was when its wait began
(`onlyReal_iff`). The log is what a predicate would have to look at; the code does not look, and a
listener of a channel to which nothing was ever appended can be handed the message that
`lastMessage_` starts out as (`exists_unreal`). It takes no spurious return to break this: a
notification that comes late lets a listener go that has blocked after the append
(`exists_repetition` of `Live.Delivery`).
-/

namespace Wrongthink

open Concurrent WrongthinkServiceImpl

variable {b : Backend} {c c' : Pool ThreadId Op Op.Result Exn Reply (World b)}
  {l : List (ThreadId × Action b)} {t : ThreadId} {ch : ℤ} {turns : ℕ}

/-! ## What a return is owed -/

/-- What an action returns with from a wait on `ch`. -/
def Op.returned (ch : ℤ) : (o : Op) → Except Exn o.Result → Option WrongthinkMessage
  | wake id _, .ok msg => if id = ch then some msg else none
  | _, _ => none

/-- The messages that are appended to `ch`, in their order. -/
def appends (ch : ℤ) (l : List (ThreadId × Action b)) : List WrongthinkMessage :=
  (l.map Prod.snd).filterMap (·.op.appended ch)

/-- In `l` the listener `t` blocks on `ch` with the action `y`, others do `m`, and it returns with
the action `x`. -/
structure Waits (t : ThreadId) (ch : ℤ) (l : List (ThreadId × Action b)) (y : Action b)
    (m : List (ThreadId × Action b)) (x : Action b) : Prop where
  split : ∃ l₀ l₂, l = l₀ ++ (t, y) :: (m ++ (t, x) :: l₂)
  blocks : y.op = .wait ch t
  others : view t m = []
  returns : x.op = .wake ch t

/-- The listener `t` is handed messages only that were appended to `ch` for it. -/
structure OnlyReal (t : ThreadId) (ch : ℤ) (l : List (ThreadId × Action b)) : Prop where
  /-- What a return hands out is the last append of those since its wait began. -/
  fresh : ∀ l₁ x l₂ v, l = l₁ ++ (t, x) :: l₂ → x.op.returned ch x.result = some v →
    ∃ l₀ y m, l₁ = l₀ ++ (t, y) :: m ∧ y.op = .wait ch t ∧ view t m = [] ∧
      (appends ch m).getLast? = some v
  /-- There is something in the log whenever something is handed out. -/
  logged : ∀ x v, (t, x) ∈ l → x.op.returned ch x.result = some v → x.before.log ch ≠ []
  /-- What a later return hands out was appended after the earlier one. -/
  once : ∀ l₁ x m x' l₂ v v', l = l₁ ++ (t, x) :: (m ++ (t, x') :: l₂) →
    x.op.returned ch x.result = some v → x'.op.returned ch x'.result = some v' →
    (appends ch m).getLast? = some v'

/-- No return of the listener `t` finds the log of `ch` as it was when the wait began. -/
def Advances (t : ThreadId) (ch : ℤ) (l : List (ThreadId × Action b)) : Prop :=
  ∀ y m x, Waits t ch l y m x → (y.before.log ch).length < (x.before.log ch).length

/-! ## One step, and a run -/

namespace Op

variable {o : Op} {w w' : World b} {r : Except Exn o.Result}

theorem exists_of_appended {msg : WrongthinkMessage} (h : o.appended ch = some msg) :
    o = .push ch msg := by
  cases o with
  | push id m =>
    rw [appended, Option.ite_none_right_eq_some] at h
    obtain ⟨rfl, hm⟩ := h
    rw [Option.some.inj hm]
  | _ => cases h

theorem exists_of_next_waiting (h : o.next r = .waiting) : ∃ id k, o = .wait id k := by
  cases o with
  | wait id k => exact ⟨id, k, rfl⟩
  | wake id k => cases r <;> cases h
  | _ => cases h

theorem exists_of_returned {v : WrongthinkMessage} (h : o.returned ch r = some v) :
    ∃ k, o = .wake ch k := by
  cases o with
  | wake id k =>
    cases r with
    | error e => cases h
    | ok msg =>
      rw [returned, Option.ite_none_right_eq_some] at h
      exact ⟨k, by rw [h.1]⟩
  | _ => cases h

theorem Step.log_appended (h : Op.Step o w r w') (hindex : Indexed o w r w') (ch : ℤ) :
    w'.log ch = w.log ch ++ (o.appended ch).toList := by
  cases happ : o.appended ch with
  | some msg =>
    obtain rfl := exists_of_appended happ
    exact h.log_push hindex
  | none =>
    rw [h.log_eq hindex ch, Option.toList_none]
    congr 1
    cases o with
    | push id m =>
      have hid : id ≠ ch := by
        rintro rfl
        simp [appended] at happ
      cases r <;> simp [mark, Mark.on, Option.filter, hid]
    | sql q => exact appended_mark_sql q r ch
    | _ => rfl

theorem Step.last_appended (h : Op.Step o w r w') (hindex : Indexed o w r w') (ch : ℤ) :
    w'.last ch = (o.appended ch).getD (w.last ch) := by
  cases happ : o.appended ch with
  | some msg =>
    obtain rfl := exists_of_appended happ
    exact h.last_push hindex
  | none =>
    refine h.last_eq ?_
    rintro msg rfl
    simp [appended] at happ

theorem Step.returned_eq {v : WrongthinkMessage} (h : Op.Step o w r w')
    (hv : o.returned ch r = some v) : v = w.last ch := by
  obtain ⟨k, rfl⟩ := exists_of_returned hv
  obtain ⟨msg, rfl⟩ := h.ok_of_not_store rfl
  obtain ⟨d, hr, _⟩ := h.ok
  rw [returned, if_pos rfl, Option.some.injEq] at hv
  rw [← hv]
  exact Except.ok.inj hr

end Op

section Between

variable {x y : Action b} {m : List (ThreadId × Action b)}
  (hindex : ∀ z ∈ l, Indexed z.2.op z.2.before z.2.result z.2.after)
  (h : Pool.Steps Op.Step c l c') (hw : Waits t ch l y m x)

include hindex h hw

theorem Waits.indexed : ∀ e ∈ y :: m.map Prod.snd, Indexed e.op e.before e.result e.after := by
  obtain ⟨l₀, l₂, rfl⟩ := hw.split
  intro e he
  rcases List.mem_cons.mp he with rfl | he
  · exact hindex (t, e) (by simp)
  · obtain ⟨z, hz, rfl⟩ := List.mem_map.mp he
    exact hindex z (by simp [hz])

theorem Waits.log_eq : x.before.log ch = y.before.log ch ++ appends ch m := by
  have hall := hw.indexed hindex h
  obtain ⟨l₀, l₂, hl⟩ := hw.split
  have hlog := (h.between hl).log (f := (World.log · ch)) (g := fun e ↦ (e.op.appended ch).toList)
    fun e he hs ↦ hs.log_appended (hall e he) ch
  rw [List.flatMap_cons, hw.blocks] at hlog
  rw [hlog, appends, List.filterMap_eq_flatMap_toList]
  rfl

theorem Waits.last_eq : x.before.last ch = (appends ch m).getLast?.getD (y.before.last ch) := by
  have hall := hw.indexed hindex h
  obtain ⟨l₀, l₂, hl⟩ := hw.split
  have hlast := (h.between hl).register (f := (World.last · ch)) (g := fun e ↦ e.op.appended ch)
    fun e he hs ↦ hs.last_appended (hall e he) ch
  rw [List.filterMap_cons_none (by rw [hw.blocks]; rfl)] at hlast
  exact hlast

end Between

/-! ## Every return has its wait -/

variable {rs : ThreadId → Request}

theorem steps_indexed (hc : ∀ j, c.thread j = (rs j).handle) (h : Pool.Steps Op.Step c l c') :
    ∀ z ∈ l, Indexed z.2.op z.2.before z.2.result z.2.after := by
  intro z hz
  exact indexed_of_view (hc z.1) h z.2 (mem_view.mpr hz)

section Listener

variable (ht : c.thread t = (Request.ListenWrongthinkMessages ch t turns).handle)
  (h : Pool.Steps Op.Step c l c')

include ht h

theorem allowed_at {l₁ l₂ : List (ThreadId × Action b)} {e : Action b}
    (hl : l = l₁ ++ (t, e) :: l₂) : (phase t l₁).Allows (some (ch, t)) e.op := by
  have hphased :
      (c.thread t).Phased Op.next (Phase.Allows (some (ch, t))) (fun _ ↦ True) .idle := by
    rw [ht]
    exact handle_phased (.ListenWrongthinkMessages ch t turns)
  have htrace := h.view_trace t
  rw [hl, view_append, view_cons_self] at htrace
  exact hphased.allowed_of_trace htrace

theorem blocks_of_next {l₁ l₂ : List (ThreadId × Action b)} {y : Action b}
    (hl : l = l₁ ++ (t, y) :: l₂) (hy : y.op.next y.result = .waiting) : y.op = .wait ch t := by
  obtain ⟨id, k, hop⟩ := Op.exists_of_next_waiting hy
  have hallowed := allowed_at ht h hl
  rw [hop] at hallowed ⊢
  cases hphase : phase t l₁ with
  | idle =>
    rw [hphase] at hallowed
    obtain ⟨rfl, rfl⟩ : ch = id ∧ t = k := by simpa [Phase.Allows] using hallowed
    rfl
  | _ =>
    rw [hphase] at hallowed
    simp [Phase.Allows] at hallowed

theorem exists_waits {l₁ l₂ : List (ThreadId × Action b)} {x : Action b} {v : WrongthinkMessage}
    (hl : l = l₁ ++ (t, x) :: l₂) (hv : x.op.returned ch x.result = some v) :
    ∃ l₀ y m, l₁ = l₀ ++ (t, y) :: m ∧ Waits t ch l y m x := by
  obtain ⟨k, hx⟩ := Op.exists_of_returned hv
  have hallowed := allowed_at ht h hl
  rw [hx] at hallowed
  cases hphase : phase t l₁ with
  | waiting =>
    rw [hphase] at hallowed
    obtain ⟨id, k', hown, hwake⟩ := hallowed
    obtain ⟨rfl, rfl⟩ : ch = id ∧ t = k' := by simpa using hown
    have hne : phase t l₁ ≠ .idle := by simp [hphase]
    obtain ⟨l₀, y, m, hl₁, hm, hnext⟩ := exists_of_phaseAfter_ne hne
    have hsplit : l = l₀ ++ (t, y) :: (m ++ (t, x) :: l₂) := by
      rw [hl, hl₁]
      simp
    refine ⟨l₀, y, m, hl₁, ⟨l₀, l₂, hsplit⟩, ?_, hm, hx.trans hwake⟩
    exact blocks_of_next ht h hsplit (hnext.trans hphase)
  | _ =>
    -- only a thread that has called `wait` returns from it
    rw [hphase] at hallowed
    simp [Phase.Allows] at hallowed

end Listener

/-! ## What a predicate would look at -/

namespace Waits

variable {y x : Action b} {m : List (ThreadId × Action b)}

theorem step (h : Pool.Steps Op.Step c l c') (hw : Waits t ch l y m x) :
    Op.Step x.op x.before x.result x.after := by
  obtain ⟨l₀, l₂, rfl⟩ := hw.split
  exact h.sem_of_mem (x := (t, x)) (by simp)

theorem exists_returned (h : Pool.Steps Op.Step c l c') (hw : Waits t ch l y m x) :
    ∃ v, x.op.returned ch x.result = some v := by
  have hreturns := hw.returns
  obtain ⟨w, o, r, w'⟩ := x
  obtain rfl : o = .wake ch t := hreturns
  have hstep : Op.Step (.wake ch t) w r w' := hw.step h
  obtain ⟨v, hr⟩ : ∃ v, r = .ok v := hstep.ok_of_not_store rfl
  refine ⟨v, ?_⟩
  dsimp only
  rw [hr, Op.returned, if_pos rfl]

/-- What a return hands out is the last append since the wait began if and only if there was one. -/
theorem fresh_iff {v : WrongthinkMessage} (hc : ∀ j, c.thread j = (rs j).handle)
    (h : Pool.Steps Op.Step c l c') (hw : Waits t ch l y m x)
    (hv : x.op.returned ch x.result = some v) :
    (appends ch m).getLast? = some v ↔ (y.before.log ch).length < (x.before.log ch).length := by
  have hindex := steps_indexed hc h
  have hgrown : (y.before.log ch).length < (x.before.log ch).length ↔ appends ch m ≠ [] := by
    rw [hw.log_eq hindex h, List.length_append, ← List.length_pos_iff]
    omega
  rw [hgrown]
  constructor
  · intro hlast hnil
    rw [hnil] at hlast
    cases hlast
  · intro hne
    rw [(hw.step h).returned_eq hv, hw.last_eq hindex h, List.getLast?_eq_some_getLast hne]
    rfl

end Waits

/-- **Only real messages.** In every run of handlers, whatever lets the listener go: it is handed
messages only that were appended since it blocked, and no append twice, if and only if no return
finds the log as it was when the wait began. -/
theorem onlyReal_iff (hc : ∀ j, c.thread j = (rs j).handle)
    (ht : rs t = .ListenWrongthinkMessages ch t turns) (h : Pool.Steps Op.Step c l c') :
    OnlyReal t ch l ↔ Advances t ch l := by
  have hlisten : c.thread t = (Request.ListenWrongthinkMessages ch t turns).handle := by
    rw [hc t, ht]
  constructor
  · intro hreal y m x hw
    obtain ⟨v, hv⟩ := hw.exists_returned h
    obtain ⟨l₀, l₂, hl⟩ := hw.split
    have hl' : l = (l₀ ++ (t, y) :: m) ++ (t, x) :: l₂ := by simp [hl]
    obtain ⟨l₀', y', m', hsplit, _, hm', hlast⟩ := hreal.fresh _ x l₂ v hl' hv
    -- the wait that the message is owed to is the one that returns
    rcases eq_or_exists_of_view_eq_nil hsplit hm' with ⟨_, rfl⟩ | ⟨m₀, rfl⟩
    · exact (hw.fresh_iff hc h hv).mp hlast
    · have hothers := hw.others
      rw [view_append, view_cons_self] at hothers
      simp at hothers
  · intro hadvances
    have hfresh : ∀ l₁ x l₂ v, l = l₁ ++ (t, x) :: l₂ → x.op.returned ch x.result = some v →
        ∃ l₀ y m, l₁ = l₀ ++ (t, y) :: m ∧ Waits t ch l y m x ∧
          (appends ch m).getLast? = some v := by
      intro l₁ x l₂ v hl hv
      obtain ⟨l₀, y, m, hl₁, hw⟩ := exists_waits hlisten h hl hv
      exact ⟨l₀, y, m, hl₁, hw, (hw.fresh_iff hc h hv).mpr (hadvances y m x hw)⟩
    refine ⟨fun l₁ x l₂ v hl hv ↦ ?_, fun x v hmem hv hnil ↦ ?_,
      fun l₁ x m x' l₂ v v' hl hv hv' ↦ ?_⟩
    · obtain ⟨l₀, y, m, hl₁, hw, hlast⟩ := hfresh l₁ x l₂ v hl hv
      exact ⟨l₀, y, m, hl₁, hw.blocks, hw.others, hlast⟩
    · obtain ⟨l₁, l₂, hl⟩ := List.append_of_mem hmem
      obtain ⟨l₀, y, m, _, hw, _⟩ := hfresh l₁ x l₂ v hl hv
      have hlt := hadvances y m x hw
      rw [hnil] at hlt
      exact absurd hlt (Nat.not_lt_zero _)
    · have hl' : l = (l₁ ++ (t, x) :: m) ++ (t, x') :: l₂ := by simp [hl]
      obtain ⟨l₀, y, m', hsplit, hw, hlast⟩ := hfresh _ x' l₂ v' hl' hv'
      -- the later wait begins after the earlier return
      rcases eq_or_exists_of_view_eq_nil hsplit hw.others with ⟨rfl, _⟩ | ⟨m₀, rfl⟩
      · obtain ⟨k, hx⟩ := Op.exists_of_returned hv
        rw [hw.blocks] at hx
        cases hx
      · rw [appends, List.map_append, List.map_cons, List.filterMap_append,
          List.filterMap_cons_none (by rw [hw.blocks]; rfl), List.getLast?_append]
        rw [appends] at hlast
        rw [hlast]
        rfl

/-! ## A run that keeps to it, and one that does not -/

/-- A listener and a sender. -/
private def audience : ThreadId → Request
  | 0 => .ListenWrongthinkMessages 1 0 2
  | 1 => .SendWrongthinkMessageWeb ⟨"ann", "", 1, 1, 0, 0, false, "hello", 0, 0⟩
  | _ => .GetWrongthinkCommunities

private def hall : Pool ThreadId Op Op.Result Exn Reply (World .postgres) where
  state := (serve (World.start .postgres 0) [.CreateUser ⟨"ann", "pw", false⟩,
    .CreateWrongthinkCommunity ⟨"all", 1, true⟩, .CreateWrongthinkChannel ⟨"main", 1, false, 1⟩]).2
  thread j := (audience j).handle

private theorem hall_handling (j : ThreadId) : hall.thread j = (audience j).handle := rfl

private theorem audience_listens : audience 0 = .ListenWrongthinkMessages 1 0 2 := rfl

private def attend (schedule : List ThreadId) : List (ThreadId × Action .postgres) ×
    Pool ThreadId Op Op.Result Exn Reply (World .postgres) := Pool.replay Op.exec hall schedule

/-- The listener blocks, a message is appended and announced, and the listener returns. -/
private def announced : List ThreadId :=
  List.replicate 6 0 ++ List.replicate 6 1 ++ List.replicate 2 0

/-- The listener blocks and returns before anyone has sent anything. -/
private def unannounced : List ThreadId := List.replicate 7 0

theorem onlyReal_iff_announced :
    OnlyReal 0 1 (attend announced).1 ↔ Advances 0 1 (attend announced).1 :=
  onlyReal_iff hall_handling audience_listens (Pool.replay_sound Op.step_exec hall announced)

/-- A listener of a channel without messages is handed one. -/
theorem exists_unreal :
    ¬∀ (c c' : Pool ThreadId Op Op.Result Exn Reply (World .postgres)) (rs : ThreadId → Request)
        (l : List (ThreadId × Action .postgres)) (t : ThreadId) (ch : ℤ) (turns : ℕ),
      (∀ j, c.thread j = (rs j).handle) → rs t = .ListenWrongthinkMessages ch t turns →
      Pool.Steps Op.Step c l c' → OnlyReal t ch l := by
  intro h
  have hreal := h hall (attend unannounced).2 audience (attend unannounced).1 0 1 2
    hall_handling audience_listens (Pool.replay_sound Op.step_exec hall unannounced)
  have hempty : ∃ x ∈ (attend unannounced).1, x.1 = 0 ∧
      x.2.op.returned 1 x.2.result = some default ∧
      x.2.before.log 1 = [] := by
    decide
  obtain ⟨⟨_, x⟩, hmem, rfl, hv, hnil⟩ := hempty
  exact hreal.logged x _ hmem hv hnil

end Wrongthink
