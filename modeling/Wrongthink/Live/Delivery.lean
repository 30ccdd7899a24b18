import Wrongthink.Live.Spurious

/-!
# Live delivery

What the stream of a listener shows of the messages that are appended to its channel. `waitMessage`
waits without a predicate and then takes the last message, so the stream neither need be complete
nor free of repetitions:

* a message that is appended while the listener is busy is not announced to it, and of two that are
  appended before it has woken it sees the second (`exists_loss`);
* `appendMessage` notifies after it has released the mutex, so a listener that blocks in between is
  woken for a message that it has already written (`exists_repetition`).

The stream shows messages of the channel, each at most once and in their order, as long as each
return from the wait finds something new in the log (`written_sublist`), as it does if the listener
does not block in between (`advances_of_calm`). And if an append and its notification are one step,
it shows them all exactly if each of them found the listener blocked (`written_eq_iff`).
-/

namespace Wrongthink

open Concurrent

variable {b : Backend} {c c' : Pool ThreadId Op Op.Result Exn Reply (World b)}
  {l : List (ThreadId × Action b)} {t : ThreadId} {ch : ℤ} {turns : ℕ} {rs : ThreadId → Request}

/-! ## Runs of handlers -/

/-- Every thread handles some request, and listens under its own number. -/
def Handling (c : Pool ThreadId Op Op.Result Exn Reply (World b)) : Prop :=
  ∀ j, ∃ r : Request, c.thread j = r.handle ∧ ∀ x ∈ r.listens, x.2 = j

/-- The listener `t` never blocks while a thread has appended to `ch` and not yet notified. -/
def Calm (t : ThreadId) (ch : ℤ) (l : List (ThreadId × Action b)) : Prop :=
  ∀ l₁ x l₂, l = l₁ ++ x :: l₂ → x.1 = t ∧ x.2.op = .wait ch t →
    ∀ y ∈ l₁, phase y.1 l₁ ≠ .pushed ch

/-- Nobody acts while another thread has appended to `ch` and not yet notified. -/
def Uncut (ch : ℤ) (l : List (ThreadId × Action b)) : Prop :=
  ∀ l₁ x l₂, l = l₁ ++ x :: l₂ → ∀ y ∈ l₁, phase y.1 l₁ = .pushed ch → x.1 = y.1

instance : Decidable (Calm t ch l) := decidable_of_iff _ forall_split_iff.symm

instance : Decidable (Uncut ch l) := decidable_of_iff _ forall_split_iff.symm

theorem mem_of_phase_pushed {j : ThreadId} (h : phase j l = .pushed ch) : ∃ y ∈ l, y.1 = j := by
  cases hlast : (view j l).getLast? with
  | none =>
    rw [phase, phaseAfter, hlast] at h
    cases h
  | some e => exact ⟨(j, e), mem_view.mp (List.mem_of_getLast? hlast), rfl⟩

theorem Handling.phased (hc : Handling c) (ht : c.thread t =
    (Request.ListenWrongthinkMessages ch t turns).handle) :
    ∃ xs : ThreadId → Option (ℤ × ThreadId), xs t = some (ch, t) ∧ (∀ j, ∀ x ∈ xs j, x.2 = j) ∧
      ∀ j, (c.thread j).Phased Op.next (Phase.Allows (xs j)) (fun _ ↦ True) .idle := by
  have hexists : ∀ j, ∃ x : Option (ℤ × ThreadId), (j = t → x = some (ch, t)) ∧
      (∀ y ∈ x, y.2 = j) ∧
      (c.thread j).Phased Op.next (Phase.Allows x) (fun _ ↦ True) .idle := by
    intro j
    by_cases hj : j = t
    · subst hj
      refine ⟨some (ch, j), fun _ ↦ rfl, fun y hy ↦ ?_, ?_⟩
      · rw [← Option.some.inj hy]
      · rw [ht]
        exact handle_phased (.ListenWrongthinkMessages ch j turns)
    · obtain ⟨r, hr, hown⟩ := hc j
      refine ⟨r.listens, fun hjt ↦ absurd hjt hj, hown, ?_⟩
      rw [hr]
      exact handle_phased r
  choose xs hxs hown hphased using hexists
  exact ⟨xs, hxs t rfl, hown, hphased⟩

theorem Handling.indexed (hc : Handling c) (h : Pool.Steps NotifiedStep c l c') :
    ∀ x ∈ l, Indexed x.2.op x.2.before x.2.result x.2.after := by
  intro x hx
  have hsteps : Pool.Steps Op.Step c l c' := h.mono fun _ _ hs ↦ hs.1
  obtain ⟨r, hr, _⟩ := hc x.1
  exact indexed_of_view hr hsteps x.2 (mem_view.mpr hx)

/-- **Simulation.** A run of handlers takes the listener where the reader gets by signals that
satisfy `G`, if the signal of each step does. -/
theorem exists_reach {G : Signal ThreadId WrongthinkMessage → Listener ThreadId WrongthinkMessage →
    Prop} (hc : Handling c)
    (ht : c.thread t = (Request.ListenWrongthinkMessages ch t turns).handle)
    (hfree : t ∉ c.state.waiters ch) (h : Pool.Steps NotifiedStep c l c')
    (hG : ∀ l₁ x l₂ s e, l = l₁ ++ x :: l₂ → (∀ j, j ∈ s.pending ↔ phase j l₁ = .pushed ch) →
      (∀ j, phase j l₁ = .pushed ch → x.1 = j → e = .notify j) → G e s) :
    ∃ s, Reach G s ∧ Follows t ch l c'.state s := by
  obtain ⟨xs, hxs, hown, hphased⟩ := hc.phased ht
  induction h with
  | nil => exact ⟨_, .init _, follows_init hfree⟩
  | @snoc c' l j o k r w' h hk hs ih =>
    obtain ⟨s, hreach, hfollows⟩ := ih fun l₁ x l₂ s e hl ↦
      hG l₁ x (l₂ ++ [(j, ⟨c'.state, o, r, w'⟩)]) s e (by rw [hl, List.append_assoc]; rfl)
    have hallowed : (phase j l).Allows (xs j) o := by
      have hj := h.phased (hphased j)
      rw [hk] at hj
      exact hj.1
    have hindex : Indexed o c'.state r w' :=
      hc.indexed (h.snoc hk hs) (j, ⟨c'.state, o, r, w'⟩) (List.mem_concat_self)
    obtain ⟨s', hfollows', hsignals⟩ :
        ∃ s', Follows t ch (l ++ [(j, ⟨c'.state, o, r, w'⟩)]) w' s' ∧
          Follows.Signals j ch o s s' := by
      by_cases hj : j = t
      · subst hj
        rw [hxs] at hallowed
        exact hfollows.step_self hs hindex hallowed
      · exact hfollows.step_of_ne hj hs hindex hallowed (hown j)
    refine ⟨s', ?_, hfollows'⟩
    rcases hsignals with rfl | ⟨e, rfl, henabled, hnotify⟩
    · exact hreach
    · refine hreach.step e henabled
        (hG l (j, ⟨c'.state, o, r, w'⟩) [] s e rfl hfollows.pending fun i hi hij ↦ ?_)
      -- a thread in the midst of an append does nothing but notify
      obtain rfl : j = i := hij
      rw [hi] at hallowed
      exact hnotify hallowed.2

/-! ## Nothing twice -/

/-- The message that a listener has returned with and not yet written. -/
def Phase.held : Phase → List WrongthinkMessage
  | holding msg => [msg]
  | _ => []

section Waiting

variable {l₀ m : List (ThreadId × Action b)} {y : Action b}

/-- Up to the end of a wait, what has been appended splits at its beginning. -/
theorem appendedSince_of_wait (hy : y.op = .wait ch t) :
    appendedSince t ch (l₀ ++ (t, y) :: m) = appendedSince t ch l₀ ++ appends ch m := by
  have hsince : since t (l₀ ++ (t, y) :: m) = since t l₀ ++ y :: m.map Prod.snd := by
    rw [since, since, List.dropWhile_append]
    cases hdrop : l₀.dropWhile fun x ↦ !(decide (x.1 = t) && x.2.op.isWait) with
    | nil => simp [hy, Op.isWait]
    | cons z zs => simp
  rw [appendedSince, hsince, List.filterMap_append,
    List.filterMap_cons_none (by rw [hy]; rfl), appendedSince, appends]

theorem written_of_wait (hy : y.op = .wait ch t) (hm : view t m = []) :
    written t (l₀ ++ (t, y) :: m) = written t l₀ := by
  rw [written, view_append, view_cons_self, hm, List.filterMap_append,
    List.filterMap_cons_none (by rw [hy]; rfl), List.filterMap_nil, List.append_nil, written]

end Waiting

theorem appendedSince_sublist_snoc (x : ThreadId × Action b) :
    (appendedSince t ch l).Sublist (appendedSince t ch (l ++ [x])) := by
  rw [appendedSince_snoc]
  exact List.sublist_append_left _ _

section Stream

variable (hc : ∀ j, c.thread j = (rs j).handle) (ht : rs t = .ListenWrongthinkMessages ch t turns)
  (h : Pool.Steps Op.Step c l c')

include hc h

theorem channelid_of_mem {m : WrongthinkMessage} (hm : m ∈ appendedSince t ch l) :
    m.channelid = ch := by
  obtain ⟨e, he, happended⟩ := List.mem_filterMap.mp hm
  have hpush : e.op = .push ch m := Op.exists_of_appended happended
  have hmem : e ∈ l.map Prod.snd := by
    exact ((List.dropWhile_sublist _).map Prod.snd).subset he
  obtain ⟨⟨j, e⟩, hj, rfl⟩ := List.mem_map.mp hmem
  obtain ⟨l₁, l₂, rfl⟩ := List.append_of_mem hj
  have htrace := h.view_trace j
  rw [hc j, view_append, view_cons_self] at htrace
  have hallowed := (handle_phased (rs j)).allowed_of_trace htrace
  rw [hpush] at hallowed
  cases hphase : phase j l₁ with
  | idle =>
    rw [phase] at hphase
    rw [hphase] at hallowed
    exact hallowed.2
  | _ =>
    rw [phase] at hphase
    rw [hphase] at hallowed
    simp [Phase.Allows] at hallowed

include ht

/-- What the listener has written, and what it has in hand, at any moment of the run. -/
theorem sublist_upTo (hadvances : Advances t ch l) (p s : List (ThreadId × Action b))
    (hl : l = p ++ s) :
    (written t p ++ (phase t p).held).Sublist (appendedSince t ch p) := by
  have hlisten : c.thread t = (Request.ListenWrongthinkMessages ch t turns).handle := by
    rw [hc t, ht]
  induction hn : p.length using Nat.strong_induction_on generalizing p s with
  | _ n ih =>
    rcases List.eq_nil_or_concat p with rfl | ⟨p, ⟨j, x⟩, rfl⟩
    · exact List.nil_sublist _
    rw [List.concat_eq_append] at hl hn ⊢
    rw [List.append_assoc, List.singleton_append] at hl
    have hearlier : ∀ q s', l = q ++ s' → q.length ≤ p.length →
        (written t q ++ (phase t q).held).Sublist (appendedSince t ch q) := by
      intro q s' hq hlength
      refine ih q.length ?_ q s' hq rfl
      rw [← hn, List.length_append, List.length_singleton]
      omega
    have hbefore := hearlier p _ hl le_rfl
    by_cases hj : j = t
    swap
    · rw [written_snoc_of_ne hj, phase_snoc_of_ne hj]
      exact hbefore.trans (appendedSince_sublist_snoc _)
    subst hj
    have hallowed := allowed_at hlisten h hl
    have hlater := hbefore.trans (appendedSince_sublist_snoc (j, x))
    rw [written_snoc_self, phase_snoc_self]
    cases hphase : phase j p with
    | idle =>
      rw [hphase] at hallowed hlater
      obtain ⟨w, o, r, w'⟩ := x
      cases o with
      | push _ _ | notifyAll _ | wake _ _ | write _ => simp [Phase.Allows] at hallowed
      | _ => simpa [Op.written, Op.next, Phase.held] using hlater
    | pushed id =>
      rw [hphase] at hallowed
      simp [Phase.Allows] at hallowed
    | waiting =>
      rw [hphase] at hallowed
      obtain ⟨id, k, hown, hwake⟩ := hallowed
      obtain ⟨rfl, rfl⟩ : ch = id ∧ j = k := by simpa using hown
      obtain ⟨w, o, r, w'⟩ := x
      obtain rfl : o = .wake ch j := hwake
      have hstep : Op.Step (.wake ch j) w r w' :=
        h.sem_of_mem (x := (j, ⟨w, .wake ch j, r, w'⟩)) (by simp [hl])
      obtain ⟨v, rfl⟩ := hstep.ok_of_not_store rfl
      have hv : (Op.wake ch j).returned ch (.ok v) = some v := if_pos rfl
      obtain ⟨l₀, y, m, rfl, hw⟩ := exists_waits hlisten h hl hv
      -- what the return hands out is the last of what was appended during the wait
      have hlast : (appends ch m).getLast? = some v :=
        (hw.fresh_iff hc h hv).mpr (hadvances y m _ hw)
      have hold : (written j l₀).Sublist (appendedSince j ch l₀) :=
        (List.sublist_append_left _ _).trans
          (hearlier l₀ _ (by rw [hl, List.append_assoc]) (by simp))
      refine List.Sublist.trans ?_ (appendedSince_sublist_snoc _)
      rw [appendedSince_of_wait hw.blocks, written_of_wait hw.blocks hw.others]
      simpa [Op.written, Op.next, Phase.held] using
        hold.append (List.singleton_sublist.mpr (List.mem_of_getLast? hlast))
    | holding msg =>
      rw [hphase] at hallowed hlater
      obtain ⟨w, o, r, w'⟩ := x
      obtain rfl : o = .write msg := hallowed
      simpa [Op.written, Op.next, Phase.held] using hlater

/-- **No repetition.** In every run in which each return of the listener finds something new in the
log, the stream shows messages of the channel that have been appended since the listener first
blocked, each once and in their order. -/
theorem written_sublist (hadvances : Advances t ch l) :
    (written t l).Sublist (appendedSince t ch l) ∧ ∀ m ∈ written t l, m.channelid = ch := by
  have hsublist : (written t l).Sublist (appendedSince t ch l) :=
    (List.sublist_append_left _ _).trans
      (sublist_upTo hc ht h hadvances l [] (List.append_nil l).symm)
  exact ⟨hsublist, fun m hm ↦ channelid_of_mem hc h (hsublist.subset hm)⟩

end Stream

theorem Handling.eq_of_waits (hc : Handling c) (h : Pool.Steps NotifiedStep c l c') {j k : ThreadId}
    {id : ℤ} {e : Action b} (hmem : (j, e) ∈ l) (he : e.op = .wait id k ∨ e.op = .wake id k) :
    k = j := by
  obtain ⟨r, hr, hown⟩ := hc j
  obtain ⟨l₁, l₂, rfl⟩ := List.append_of_mem hmem
  have htrace := h.view_trace j
  rw [hr, view_append, view_cons_self] at htrace
  have hallowed := (handle_phased r).allowed_of_trace htrace
  rcases he with he | he
  · rw [he] at hallowed
    cases hphase : phaseAfter Op.next .idle (view j l₁) with
    | idle =>
      rw [hphase] at hallowed
      exact hown (id, k) hallowed
    | _ =>
      rw [hphase] at hallowed
      simp [Phase.Allows] at hallowed
  · rw [he] at hallowed
    cases hphase : phaseAfter Op.next .idle (view j l₁) with
    | waiting =>
      rw [hphase] at hallowed
      obtain ⟨id', k', hlistens, hop⟩ := hallowed
      rw [Op.wake.injEq] at hop
      rw [hop.2]
      exact hown (id', k') hlistens
    | _ =>
      rw [hphase] at hallowed
      simp [Phase.Allows] at hallowed

theorem Handling.phase_eq_of_notifies (hc : Handling c) (h : Pool.Steps NotifiedStep c l c')
    {j : ThreadId} {l₁ l₂ : List (ThreadId × Action b)} {e : Action b}
    (hl : l = l₁ ++ (j, e) :: l₂) (he : e.op = .notifyAll ch) : phase j l₁ = .pushed ch := by
  obtain ⟨r, hr, _⟩ := hc j
  have htrace := h.view_trace j
  rw [hr, hl, view_append, view_cons_self] at htrace
  have hallowed := (handle_phased r).allowed_of_trace htrace
  rw [he] at hallowed
  rw [phase]
  cases hphase : phaseAfter Op.next .idle (view j l₁) with
  | pushed id =>
    rw [hphase] at hallowed
    rw [Op.notifyAll.inj hallowed.2]
  | _ =>
    rw [hphase] at hallowed
    simp [Phase.Allows] at hallowed

section Woken

variable {y x : Action b} {m : List (ThreadId × Action b)}

theorem Waits.ne_of_mem (hw : Waits t ch l y m x) {z : ThreadId × Action b} (hz : z ∈ m) :
    z.1 ≠ t := by
  rintro rfl
  have hmem : z.2 ∈ view z.1 m := mem_view.mpr hz
  rw [hw.others] at hmem
  cases hmem

/-- Who returns has been notified since it blocked. -/
theorem Handling.exists_notifyAll (hc : Handling c) (h : Pool.Steps NotifiedStep c l c')
    (hw : Waits t ch l y m x) : ∃ z ∈ m, z.2.op = .notifyAll ch := by
  obtain ⟨l₀, l₂, hl⟩ := hw.split
  by_contra! hnone
  obtain ⟨_, hy, hrun⟩ := run_cons_iff.mp (h.between hl)
  have hblocked : t ∈ y.after.waiters ch := by
    have hblocks := hw.blocks
    have hindex := hc.indexed h (t, y) (by simp [hl])
    obtain ⟨v, o, r, v'⟩ := y
    obtain rfl : o = .wait ch t := hblocks
    exact hy.1.mem_waiters_wait hindex
  have hstill : t ∈ x.before.waiters ch := by
    refine hrun.preserves (I := fun w ↦ t ∈ w.waiters ch) (fun e he hs hmem ↦ ?_) hblocked
    obtain ⟨⟨j, e⟩, hz, rfl⟩ := List.mem_map.mp he
    have hzl : (j, e) ∈ l := by simp [hl, hz]
    refine (hs.1.mem_waiters_iff (hnone (j, e) hz) (fun hop ↦ ?_) fun hop ↦ ?_).mpr hmem
    · exact hw.ne_of_mem hz (hc.eq_of_waits h hzl (.inl hop)).symm
    · exact hw.ne_of_mem hz (hc.eq_of_waits h hzl (.inr hop)).symm
  have hreturn : ¬Spurious x.op x.before := (h.sem_of_mem (x := (t, x)) (by simp [hl])).2
  rw [hw.returns] at hreturn
  exact hreturn ⟨(ch, t), rfl, hstill⟩

/-- Who is in the midst of an append has made it since the wait began, or was in the midst of it
then. -/
theorem phase_pushed_append {j : ThreadId} {l₀ m₁ : List (ThreadId × Action b)}
    (h : phase j (l₀ ++ m₁) = .pushed ch) :
    phase j l₀ = .pushed ch ∨ ∃ z ∈ m₁, ∃ msg, z.2.op = .push ch msg := by
  rw [phase, view_append, phaseAfter] at h
  cases hlast : (view j m₁).getLast? with
  | none =>
    rw [List.getLast?_eq_none_iff.mp hlast, List.append_nil] at h
    exact .inl h
  | some f =>
    rw [List.getLast?_append, hlast] at h
    exact .inr ⟨(j, f), mem_view.mp (List.mem_of_getLast? hlast), Op.eq_push_of_next h⟩

/-- In a calm run nobody is let go for a message that was appended before the wait. -/
theorem advances_of_calm (hc : Handling c) (h : Pool.Steps NotifiedStep c l c')
    (hcalm : Calm t ch l) : Advances t ch l := by
  intro y m x hw
  have hsteps : Pool.Steps Op.Step c l c' := h.mono fun _ _ hs ↦ hs.1
  obtain ⟨l₀, l₂, hl⟩ := hw.split
  obtain ⟨⟨j, e⟩, hz, he⟩ := hc.exists_notifyAll h hw
  obtain ⟨m₁, m₂, rfl⟩ := List.append_of_mem hz
  have hsplit : l = (l₀ ++ (t, y) :: m₁) ++ (j, e) :: (m₂ ++ (t, x) :: l₂) := by simp [hl]
  have hpushed : phase j (l₀ ++ (t, y) :: m₁) = .pushed ch := hc.phase_eq_of_notifies h hsplit he
  have happended : appends ch (m₁ ++ (j, e) :: m₂) ≠ [] := by
    rcases phase_pushed_append hpushed with hbefore | ⟨z, hz₁, msg, hop⟩
    · obtain ⟨z, hz₀, rfl⟩ := mem_of_phase_pushed hbefore
      exact absurd hbefore (hcalm l₀ (t, y) _ hl ⟨rfl, hw.blocks⟩ z hz₀)
    rcases List.mem_cons.mp hz₁ with rfl | hz₁
    · rw [hw.blocks] at hop
      cases hop
    refine List.ne_nil_of_mem (a := msg) (List.mem_filterMap.mpr ⟨z.2, ?_, ?_⟩)
    · exact List.mem_map_of_mem (List.mem_append_left _ hz₁)
    · rw [hop, Op.appended, if_pos rfl]
  rw [hw.log_eq (hc.indexed h) hsteps, List.length_append]
  have hpos := List.length_pos_iff.mpr happended
  omega

end Woken

/-! ## Nothing lost -/

theorem appended_isSome_iff {o : Op} : (o.appended ch).isSome ↔ ∃ msg, o = .push ch msg := by
  cases o with
  | push id msg =>
    by_cases hid : id = ch <;> simp [Op.appended, hid]
  | _ => simp [Op.appended]

theorem heardSince_eq_length_iff : heardSince t ch l = (appendedSince t ch l).length ↔
    ∀ e ∈ since t l, ∀ msg, e.op = .push ch msg → t ∈ e.before.waiters ch := by
  have hheard : heardSince t ch l =
      ((since t l).filter fun e ↦ (e.op.appended ch).isSome).countP
        fun e ↦ t ∈ e.before.waiters ch := by
    rw [List.countP_filter, heardSince]
    congr 1
    funext e
    simp [Bool.and_comm]
  have hlength : (appendedSince t ch l).length =
      ((since t l).filter fun e ↦ (e.op.appended ch).isSome).length := by
    rw [appendedSince, List.length_filterMap_eq_countP, List.countP_eq_length_filter]
  rw [hheard, hlength, List.countP_eq_length]
  simp only [List.mem_filter, appended_isSome_iff, decide_eq_true_eq]
  constructor
  · intro h e he msg hop
    exact h e ⟨he, msg, hop⟩
  · rintro h e ⟨he, msg, hop⟩
    exact h e he msg hop

/-- **Exactly once.** If nobody cuts in between an append and its notification: whenever the
listener is blocked again, and no notification is outstanding, the stream has shown all messages
appended since it first blocked if and only if each of them was appended when it was blocked. -/
theorem written_eq_iff (hc : Handling c)
    (ht : c.thread t = (Request.ListenWrongthinkMessages ch t turns).handle)
    (hfree : t ∉ c.state.waiters ch) (h : Pool.Steps NotifiedStep c l c') (huncut : Uncut ch l)
    (hblocked : t ∈ c'.state.waiters ch) (hquiet : ∀ y ∈ l, phase y.1 l ≠ .pushed ch) :
    written t l = appendedSince t ch l ↔
      ∀ e ∈ since t l, ∀ msg, e.op = .push ch msg → t ∈ e.before.waiters ch := by
  obtain ⟨s, hreach, hfollows⟩ := exists_reach (G := Signal.Atomic) hc ht hfree h
    fun l₁ x l₂ s e hl hpending hnotify j hj ↦ by
      have hphase := (hpending j).mp hj
      obtain ⟨y, hy, rfl⟩ := mem_of_phase_pushed hphase
      exact hnotify y.1 hphase (huncut l₁ x l₂ hl y hy hphase)
  have hmode : s.mode = .blocked := by
    rw [hfollows.mode, hfollows.waiting hblocked]
    simp [Phase.mode, hblocked]
  have hpending : s.pending = ∅ := by
    rw [Set.eq_empty_iff_forall_notMem]
    intro j hj
    have hphase := (hfollows.pending j).mp hj
    obtain ⟨y, hy, rfl⟩ := mem_of_phase_pushed hphase
    exact hquiet y hy hphase
  have hiff := hreach.written_eq_appended_iff hmode hpending
  rw [hfollows.written, hfollows.appended, hfollows.heard] at hiff
  exact hiff.trans heardSince_eq_length_iff

/-! ## Runs in which it matters -/

/-- A message to the channel that is set up below. -/
private def note (text : String) : WrongthinkMessage := ⟨"ann", "", 1, 1, 0, 0, false, text, 0, 0⟩

/-- A listener and two senders. -/
private def threads (turns : ℕ) : ThreadId → Request
  | 0 => .ListenWrongthinkMessages 1 0 turns
  | 1 => .SendWrongthinkMessageWeb (note "first")
  | 2 => .SendWrongthinkMessageWeb (note "second")
  | _ => .GetWrongthinkCommunities

private def room (turns : ℕ) : Pool ThreadId Op Op.Result Exn Reply (World .postgres) where
  state := (serve (World.start .postgres 0) [.CreateUser ⟨"ann", "pw", false⟩,
    .CreateWrongthinkCommunity ⟨"all", 1, true⟩, .CreateWrongthinkChannel ⟨"main", 1, false, 1⟩]).2
  thread j := (threads turns j).handle

private theorem room_handling (turns : ℕ) : Handling (room turns) := by
  intro j
  refine ⟨threads turns j, rfl, fun x hx ↦ ?_⟩
  match j with
  | 0 => exact (Option.some.inj hx) ▸ rfl
  | 1 | 2 => cases hx
  | j + 3 => cases hx

private def play (turns : ℕ) (schedule : List ThreadId) : List (ThreadId × Action .postgres) ×
    Pool ThreadId Op Op.Result Exn Reply (World .postgres) :=
  Pool.replay Op.exec (room turns) schedule

private theorem play_steps {turns : ℕ} {schedule : List ThreadId}
    (h : ∀ x ∈ (play turns schedule).1, ¬Spurious x.2.op x.2.before) :
    Pool.Steps NotifiedStep (room turns) (play turns schedule).1 (play turns schedule).2 := by
  have hsteps : Pool.Steps Op.Step (room turns) (play turns schedule).1 (play turns schedule).2 :=
    Pool.replay_sound Op.step_exec _ _
  exact hsteps.mono fun x hx hs ↦ ⟨hs, h x hx⟩

/-- The listener blocks, hears a message and blocks again, and so with the next. -/
private def heard : List ThreadId :=
  List.replicate 6 0 ++ List.replicate 6 1 ++ List.replicate 3 0 ++ List.replicate 6 2 ++
    List.replicate 3 0

/-- Two messages are appended before the listener has woken. -/
private def burst : List ThreadId :=
  List.replicate 6 0 ++ List.replicate 5 1 ++ List.replicate 5 2 ++ List.replicate 3 0

/-- The first sender appends before the second, and notifies when the listener has taken the message
of the second and blocked again. -/
private def late : List ThreadId :=
  List.replicate 6 0 ++ List.replicate 4 1 ++ List.replicate 5 2 ++ List.replicate 3 0 ++ [1, 0, 0]

theorem written_sublist_heard :
    (written 0 (play 3 heard).1).Sublist (appendedSince 0 1 (play 3 heard).1) ∧
      ∀ m ∈ written 0 (play 3 heard).1, m.channelid = 1 :=
  written_sublist (fun j ↦ (rfl : (room 3).thread j = (threads 3 j).handle)) rfl
    (Pool.replay_sound Op.step_exec _ _)
    (advances_of_calm (room_handling 3) (play_steps (by decide)) (by decide))

theorem written_eq_iff_heard :
    written 0 (play 3 heard).1 = appendedSince 0 1 (play 3 heard).1 ↔
      ∀ e ∈ since 0 (play 3 heard).1, ∀ msg, e.op = .push 1 msg → 0 ∈ e.before.waiters 1 :=
  written_eq_iff (room_handling 3) rfl (by decide) (play_steps (by decide)) (by decide)
    (by decide) (by decide)

/-- The first message of the burst is never shown. -/
theorem exists_loss :
    ¬∀ (c c' : Pool ThreadId Op Op.Result Exn Reply (World .postgres))
        (l : List (ThreadId × Action .postgres)), Handling c →
      c.thread 0 = (Request.ListenWrongthinkMessages 1 0 2).handle → 0 ∉ c.state.waiters 1 →
      Pool.Steps NotifiedStep c l c' → Uncut 1 l → 0 ∈ c'.state.waiters 1 →
      (∀ y ∈ l, phase y.1 l ≠ .pushed 1) → written 0 l = appendedSince 0 1 l := by
  intro h
  have hburst := h (room 2) (play 2 burst).2 (play 2 burst).1 (room_handling 2) rfl (by decide)
    (play_steps (by decide)) (by decide) (by decide) (by decide)
  exact absurd hburst (by decide)

/-- The second message is shown twice. -/
theorem exists_repetition :
    ¬∀ (c c' : Pool ThreadId Op Op.Result Exn Reply (World .postgres))
        (l : List (ThreadId × Action .postgres)), Handling c →
      c.thread 0 = (Request.ListenWrongthinkMessages 1 0 2).handle → 0 ∉ c.state.waiters 1 →
      Pool.Steps NotifiedStep c l c' → (written 0 l).Sublist (appendedSince 0 1 l) := by
  intro h
  have hlate := h (room 2) (play 2 late).2 (play 2 late).1 (room_handling 2) rfl (by decide)
    (play_steps (by decide))
  exact absurd hlate (by decide)

end Wrongthink
