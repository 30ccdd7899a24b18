import Wrongthink.Bans.Enforcement
import Wrongthink.Concurrent.Straight

/-!
# When the interceptor lets a call proceed

For every batch of a call the interceptor must reach `Proceed`, once, and it must do nothing that is
not defined on the way. It fails in two ways (`proceeds_iff`). A stream that has ended is reported
without a message, and the interceptor asks this message for its descriptor all the same. And an
exception of a ban lookup leaves the interceptor before `Proceed`: nothing catches it there.
-/

namespace Wrongthink

open Concurrent LoggingInterceptor

variable {b : Backend}

/-- What should have happened when the interceptor is through with a batch. -/
structure Proceeds (tr : List (Action b)) : Prop where
  /-- No null message was used. -/
  defined : ∀ e ∈ tr, e.op ≠ .undefined
  once : tr.countP (·.op = .proceed) = 1

/-! ## The two tests -/

theorem DBPostgres.isIPBanned_straight (ip : String) : (isIPBanned ip).Straight := by
  simp only [isIPBanned, Prog.straight_perform_bind]
  intro _ date
  rcases date with _ | te
  · trivial
  · refine (Prog.straight_perform_bind _ _).mpr fun tc ↦ ?_
    split
    · exact (Prog.straight_perform_bind _ _).mpr fun _ ↦ trivial
    · trivial

theorem DBPostgres.isUserBanned_straight (uname ip : String) :
    (isUserBanned uname ip).Straight := by
  simp only [isUserBanned, Prog.straight_perform_bind]
  intro _ date
  rcases date with _ | te
  · trivial
  refine (Prog.straight_perform_bind _ _).mpr fun tc ↦ ?_
  split
  · exact (Prog.straight_perform_bind _ _).mpr fun _ ↦ trivial
  refine (DBPostgres.isIPBanned_straight ip).bind fun ipBanned ↦ ?_
  split
  · trivial
  · exact (Prog.straight_perform_bind _ _).mpr fun _ ↦ trivial

/-- The actions of a test, and what follows from it. -/
def Op.Tests (o : Op) : Prop := DBPostgres.Consults o ∨ o = .tryCancel

theorem Op.Tests.ne_proceed {o : Op} (ho : o.Tests) : o ≠ .proceed := by
  rintro rfl
  rcases ho with (ho | ho) | ho <;> cases ho

theorem Op.Tests.ne_undefined {o : Op} (ho : o.Tests) : o ≠ .undefined := by
  rintro rfl
  rcases ho with (ho | ho) | ho <;> cases ho

theorem tests_cancel {p : Routine Bool} (hp : p.Only DBPostgres.Consults) :
    (do let banned ← p; if banned then perform .tryCancel else pure ()).Only Op.Tests := by
  refine (hp.mono fun _ ho ↦ .inl ho).bind fun banned ↦ ?_
  split
  · exact (Prog.only_perform _ _).mpr (.inr rfl)
  · trivial

theorem straight_cancel {p : Routine Bool} (hp : p.Straight) :
    (do let banned ← p; if banned then perform .tryCancel else pure ()).Straight := by
  refine hp.bind fun banned ↦ ?_
  split
  · exact Prog.straight_perform _
  · trivial

theorem onMessage_tests (peer : String) (msg : RecvMessage) :
    (onMessage peer (some msg)).Only Op.Tests := by
  rw [onMessage]
  rcases msg.FindFieldByName "uname" with _ | f
  · trivial
  · exact tests_cancel (DBPostgres.isUserBanned_consults _ peer)

theorem onMessage_straight (peer : String) (msg : Option RecvMessage) :
    (onMessage peer msg).Straight := by
  rcases msg with _ | msg
  · exact Prog.straight_perform _
  rw [onMessage]
  rcases msg.FindFieldByName "uname" with _ | f
  · trivial
  · exact straight_cancel (DBPostgres.isUserBanned_straight _ peer)

/-! ## A batch -/

/-- Everything the interceptor does before it proceeds. -/
def beforeProceed (methods : InterceptorBatchMethods) (peer : String) : Routine Unit := do
  (if methods.postRecvInitialMetadata then onInitialMetadata peer else pure ())
  (match methods.postRecvMessage with
    | some msg => onMessage peer msg
    | none => pure ())

theorem intercept_eq (methods : InterceptorBatchMethods) (peer : String) :
    intercept methods peer = beforeProceed methods peer >>= fun _ ↦ perform .proceed :=
  (Prog.bind_assoc _ _ _).symm

theorem beforeProceed_straight (methods : InterceptorBatchMethods) (peer : String) :
    (beforeProceed methods peer).Straight := by
  refine Prog.Straight.bind ?_ fun _ ↦ ?_
  · split
    · exact straight_cancel (DBPostgres.isIPBanned_straight peer)
    · trivial
  · rcases methods.postRecvMessage with _ | msg
    · trivial
    · exact onMessage_straight peer msg

/-- Whatever comes in at the second hook point, the first only tests. -/
theorem beforeProceed_only {P : Op → Prop} (hP : ∀ o : Op, o.Tests → P o)
    {methods : InterceptorBatchMethods} {peer : String}
    (hnull : methods.postRecvMessage = some none → P .undefined) :
    (beforeProceed methods peer).Only P := by
  refine Prog.Only.bind ?_ fun _ ↦ ?_
  · split
    · exact (tests_cancel (DBPostgres.isIPBanned_consults peer)).mono hP
    · trivial
  · rcases hmsg : methods.postRecvMessage with _ | _ | msg
    · trivial
    · exact (Prog.only_perform _ _).mpr (hnull hmsg)
    · exact (onMessage_tests peer msg).mono hP

theorem exists_undefined {methods : InterceptorBatchMethods} {peer : String} {a : Unit}
    {tr : List (Action b)} (h : (beforeProceed methods peer).Trace tr (.done a))
    (hnull : methods.postRecvMessage = some none) : ∃ e ∈ tr, e.op = .undefined := by
  obtain ⟨_, tr₁, tr₂, rfl, _, h₂⟩ := h.of_bind_done
  rw [hnull] at h₂
  rcases Prog.trace_act_iff.mp h₂ with ⟨_, hdone⟩ | ⟨w, r, w', tr', rfl, _⟩
  · cases hdone
  · exact ⟨⟨w, .undefined, r, w'⟩, by simp, rfl⟩

theorem trace_proceed {tr : List (Action b)} {p' : Routine Unit}
    (h : (perform .proceed).Trace tr p') (hsteps : ∀ e ∈ tr, Op.Step e.op e.before e.result e.after)
    (hend : p'.outcome ≠ none) : ∃ w w', tr = [⟨w, .proceed, .ok (), w'⟩] := by
  rcases Prog.trace_act_iff.mp h with ⟨_, rfl⟩ | ⟨w, r, w', tr', rfl, hrest⟩
  · exact absurd rfl hend
  rcases r with e | v
  · obtain ⟨v, hv⟩ := (hsteps ⟨w, .proceed, .error e, w'⟩ (by simp)).ok_of_not_store rfl
    cases hv
  · obtain ⟨rfl, _⟩ := Prog.trace_done_iff.mp hrest
    exact ⟨w, w', rfl⟩

/-- **When a batch proceeds.** As it should, exactly if it does not report the end of a stream and
no ban lookup raises. -/
theorem proceeds_iff {methods : InterceptorBatchMethods} {peer : String} {tr : List (Action b)}
    {p' : Routine Unit} (htr : (intercept methods peer).Trace tr p')
    (hsteps : ∀ e ∈ tr, Op.Step e.op e.before e.result e.after) (hend : p'.outcome ≠ none) :
    Proceeds tr ↔ methods.postRecvMessage ≠ some none ∧ ∀ e ∈ tr, e.result.isOk := by
  rw [intercept_eq] at htr
  have hstraight := beforeProceed_straight methods peer
  have hno : (beforeProceed methods peer).Only (· ≠ .proceed) :=
    beforeProceed_only (fun _ ho ↦ ho.ne_proceed) fun _ ↦ by simp
  rcases htr.of_bind with ⟨q, hq, hne, rfl⟩ | ⟨a, tr₁, tr₂, rfl, h₁, h₂⟩
  · -- it came to an end before it proceeded, so something raised
    have hqend : q.outcome ≠ none := fun hnone ↦ hend (Prog.outcome_bind_eq_none hnone _)
    rcases hstraight.ended hq hqend with ⟨_, a, rfl⟩ | ⟨⟨e, he, hfail⟩, _⟩
    · exact absurd rfl (hne a)
    · refine iff_of_false (fun h ↦ ?_) fun h ↦ hfail (h.2 e he)
      have hzero : tr.countP (·.op = .proceed) = 0 := by
        rw [List.countP_eq_zero]
        exact fun e he ↦ by simpa using (hno.trace hq).1 e he
      have hone := h.once
      omega
  · -- nothing was raised on the way to `Proceed`
    have hok : ∀ e ∈ tr₁, e.result.isOk := by
      rcases hstraight.ended h₁ (by simp [Prog.outcome]) with ⟨hok, _⟩ | ⟨_, x, hx⟩
      · exact hok
      · cases hx
    have hzero : tr₁.countP (·.op = .proceed) = 0 := by
      rw [List.countP_eq_zero]
      exact fun e he ↦ by simpa using (hno.trace h₁).1 e he
    obtain ⟨w, w', rfl⟩ :=
      trace_proceed h₂ (fun e he ↦ hsteps e (List.mem_append_right _ he)) hend
    constructor
    · intro h
      refine ⟨fun hnull ↦ ?_,
        List.forall_mem_append.mpr ⟨hok, by simp [Except.isOk, Except.toBool]⟩⟩
      obtain ⟨e, he, hundefined⟩ := exists_undefined h₁ hnull
      exact h.defined e (List.mem_append_left _ he) hundefined
    · rintro ⟨hnull, _⟩
      have honly : (beforeProceed methods peer).Only (· ≠ .undefined) :=
        beforeProceed_only (fun _ ho ↦ ho.ne_undefined) fun h ↦ absurd h hnull
      refine ⟨List.forall_mem_append.mpr ⟨(honly.trace h₁).1, by simp⟩, ?_⟩
      rw [List.countP_append, hzero]
      simp

/-- The first batch of a call whose message names nobody, from a peer that nobody has banned. -/
private def firstBatch : InterceptorBatchMethods := ⟨true, some (some [⟨"uname", "", "bob"⟩])⟩

private def started : World .postgres := World.start .postgres 0

/-- What the interceptor does with a batch when nothing disturbs it. -/
private def through (methods : InterceptorBatchMethods) : List (Action .postgres) :=
  ((intercept methods "ipv4:1.2.3.4:5678").exec Op.exec started).1

private theorem through_sound (methods : InterceptorBatchMethods) :
    ∃ p', (intercept methods "ipv4:1.2.3.4:5678").Trace (through methods) p' ∧ p'.outcome ≠ none ∧
      ∀ e ∈ through methods, Op.Step e.op e.before e.result e.after := by
  obtain ⟨hrun, p', htr, hout⟩ :=
    Prog.exec_sound Op.step_exec (intercept methods "ipv4:1.2.3.4:5678") started
  exact ⟨p', htr, by simp [hout], fun e he ↦ hrun.sem_of_mem he⟩

theorem proceeds_iff_firstBatch :
    Proceeds (through firstBatch) ↔
      firstBatch.postRecvMessage ≠ some none ∧ ∀ e ∈ through firstBatch, e.result.isOk := by
  obtain ⟨p', htr, hend, hsteps⟩ := through_sound firstBatch
  exact proceeds_iff htr hsteps hend

/-- The batch that reports the end of a client's stream. -/
theorem exists_nullMessage :
    ¬∀ (methods : InterceptorBatchMethods) (peer : String) (tr : List (Action .postgres))
      (p' : Routine Unit), (intercept methods peer).Trace tr p' →
      (∀ e ∈ tr, Op.Step e.op e.before e.result e.after) → p'.outcome ≠ none → Proceeds tr := by
  intro h
  obtain ⟨p', htr, hend, hsteps⟩ := through_sound ⟨false, some none⟩
  have hproceeds := h _ _ _ _ htr hsteps hend
  have hundefined : ∃ e ∈ through ⟨false, some none⟩, e.op = .undefined := by decide
  obtain ⟨e, he, hop⟩ := hundefined
  exact hproceeds.defined e he hop

end Wrongthink
