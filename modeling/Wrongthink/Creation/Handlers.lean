import Wrongthink.Creation.Calls

/-!
# The handlers that create

`GenerateUser`, `CreateUser`, `CreateWrongthinkCommunity` and `CreateWrongthinkChannel` each make
one call of the database layer and answer with the key it returns. A handler that has ended has come
to one of three ends (`Creates.Outcome`): its insert was refused, or the insert was accepted and the
lookup lost, or the lookup has answered. Only the last is answered `OK`.
-/

namespace Wrongthink

open Concurrent WrongthinkServiceImpl

variable {b : Backend}

/-! ## What a handler calls -/

/-- The call that a handler makes, its response to the number of the admins before the call and the
key that was found, and its response when something is raised. -/
structure Creates where
  call : Creation
  response : ℕ → ℤ → Response
  none : Response

def Request.creates : Request → Option Creates
  | GenerateUser uuid uuid2 =>
    let id := eraseDashes uuid
    let id2 := eraseDashes uuid2
    some ⟨.user id id2 false, fun adminct uid ↦
      .user ⟨id, id2, uid, if adminct = 0 then true else false⟩, .user default⟩
  | CreateUser request =>
    some ⟨.user request.uname request.password request.admin, fun adminct uid ↦
      .user ⟨request.uname, "", uid, if adminct = 0 then true else request.admin⟩, .user default⟩
  | CreateWrongthinkCommunity request =>
    some ⟨.community request.name request.adminid request.public_, fun _ id ↦ .id id, .id 0⟩
  | CreateWrongthinkChannel request =>
    some ⟨.channel request.name request.communityid request.adminid request.anonymous,
      fun _ id ↦ .id id, .id 0⟩
  | _ => none

theorem Request.target_of_creates {r : Request} {x : Creates} (h : r.creates = some x) :
    r.target = some x.call.table := by
  cases r with
  | GenerateUser _ _ | CreateUser _ | CreateWrongthinkCommunity _ | CreateWrongthinkChannel _ =>
    obtain rfl := Option.some.inj h
    rfl
  | _ => cases h

theorem Request.exists_creates {r : Request} {q : Creation} (h : r.target = some q.table) :
    ∃ x, r.creates = some x ∧ x.call.table = q.table := by
  obtain ⟨x, hx⟩ : ∃ x, r.creates = some x := by
    cases r with
    | GenerateUser _ _ | CreateUser _ | CreateWrongthinkCommunity _ | CreateWrongthinkChannel _ =>
      exact ⟨_, rfl⟩
    | _ => cases q <;> cases h
  exact ⟨x, hx, Option.some.inj ((target_of_creates hx).symm.trans h)⟩

/-- The body of the handler. -/
def Creates.body (x : Creates) : Routine (Status × Response) :=
  x.call.steps fun adminct id ↦ x.call.finish id >>= fun n ↦
    return (Status.OK, x.response adminct n)

theorem caught_map {α : Type} (f : α → Response) (none : α) (p : Routine (Status × α)) :
    caught f none p = caught id (f none) (p >>= fun x ↦ return (x.1, f x.2)) := by
  induction p with
  | done x => rfl
  | raise e => rfl
  | act o k ih =>
    change Prog.act o _ = Prog.act o _
    congr 1
    exact funext ih

theorem handle_creates {r : Request} {x : Creates} (h : r.creates = some x) :
    r.handle = caught id x.none x.body := by
  cases r with
  | GenerateUser uuid uuid2 =>
    obtain rfl := Option.some.inj h
    have hbody : generateUser uuid uuid2 = orInternal default
        (DBPostgres.createUser (eraseDashes uuid) (eraseDashes uuid2) false >>= fun x ↦
          return (Status.OK, ⟨eraseDashes uuid, eraseDashes uuid2, x.1, x.2⟩)) := rfl
    rw [Request.handle, hbody, ← caught, caught_map, DBPostgres.createUser_eq]
    simp only [Creation.steps_bind, Creates.body]
    rfl
  | CreateUser request =>
    obtain rfl := Option.some.inj h
    rw [Request.handle, createUser, ← caught, caught_map, DBPostgres.createUser_eq]
    simp only [Creation.steps_bind, Creates.body]
    rfl
  | CreateWrongthinkCommunity request =>
    obtain rfl := Option.some.inj h
    rw [Request.handle, createWrongthinkCommunity, ← caught, caught_map,
      DBPostgres.createCommunity_eq]
    simp only [Creation.steps_bind, Creates.body]
    congr 2
    funext adminct id
    cases id with
    | some id => rfl
    -- the id is returned although nothing has set it
    | none =>
      simp only [Creation.finish, Prog.bind_assoc]
      rfl
  | CreateWrongthinkChannel request =>
    obtain rfl := Option.some.inj h
    rw [Request.handle, createWrongthinkChannel, ← caught, caught_map, DBPostgres.createChannel_eq]
    simp only [Creation.steps_bind, Creates.body]
    rfl
  | _ => cases h

theorem handle_inserts {r : Request} {x : Creates} (h : r.creates = some x) :
    r.handle.Only fun o ↦ o.target ≠ none → ∃ adminct, o = .sql (x.call.insert adminct) := by
  have hreads : ∀ o : Op, o.target = none →
      (o.target ≠ none → ∃ adminct, o = .sql (x.call.insert adminct)) :=
    fun o ho hne ↦ absurd ho hne
  rw [handle_creates h]
  refine only_respond (only_orInternal ?_)
  rw [Creates.body, Creation.steps]
  refine (x.call.prepare_reads.mono fun o ho ↦ hreads o ho.2).bind fun adminct ↦ ?_
  refine (Prog.only_perform_bind _ _ _).mpr ⟨fun _ ↦ ⟨adminct, rfl⟩, fun _ ↦ ?_⟩
  refine (x.call.find_reads.mono fun o ho ↦ hreads o ho.2).bind fun id ↦ ?_
  exact ((x.call.finish_reads id).mono hreads).bind fun _ ↦ trivial

/-! ## How a handler ends -/

/-- The end of a handler that has performed the actions `tr`, and its reply. -/
inductive Creates.Outcome (x : Creates) : List (Action b) → Reply → Prop where
  | refused {tr} (hidle : Creation.Idle tr) : Outcome x tr (Status.INTERNAL, x.none)
  | lost {tr₁ adminct w v w' tr₂} (hprepare : x.call.prepare.Trace tr₁ (.done adminct))
      (hlost : ∀ e ∈ tr₂, e.result.isOk = false) :
      Outcome x (tr₁ ++ ⟨w, .sql (x.call.insert adminct), .ok v, w'⟩ :: tr₂)
        (Status.INTERNAL, x.none)
  | answered {tr₁ adminct w v w' e tr₂} (hprepare : x.call.prepare.Trace tr₁ (.done adminct))
      (hlooks : e.op.looksUp ∧ e.result.isOk) (hrest : ∀ f ∈ tr₂, f.op = .undefined) :
      Outcome x (tr₁ ++ ⟨w, .sql (x.call.insert adminct), .ok v, w'⟩ :: e :: tr₂)
        (Status.OK, x.response adminct ((x.call.lookup e.before).getD 0))

theorem Creation.trace_finish {α : Type} {q : Creation} {id : Option ℤ} {g : ℤ → α}
    {tr : List (Action b)} {p' : Routine α}
    (hstep : ∀ e ∈ tr, Op.Step e.op e.before e.result e.after)
    (h : (q.finish id >>= fun n ↦ return g n).Trace tr p') :
    (∀ e ∈ tr, e.op = .undefined) ∧ (p' = .done (g (id.getD 0)) ∨ p'.outcome = none) := by
  have hdone : ∀ n, q.finish id = .done n → n = id.getD 0 →
      (∀ e ∈ tr, e.op = .undefined) ∧ (p' = .done (g (id.getD 0)) ∨ p'.outcome = none) := by
    rintro n hn rfl
    rw [hn] at h
    obtain ⟨rfl, rfl⟩ := Prog.trace_done_iff.mp h
    exact ⟨by simp, .inl rfl⟩
  cases q with
  | user uname token admin => exact hdone _ rfl rfl
  | channel name community_id admin_id anonymous => exact hdone _ rfl rfl
  | community name admin pub =>
    cases id with
    | some n => exact hdone n rfl rfl
    | none =>
      rw [finish, Prog.bind_assoc] at h
      rcases Prog.trace_perform_bind_iff.mp h with
        ⟨rfl, rfl⟩ | ⟨w, v, w', tr', rfl, hrest⟩ | ⟨w, e, w', rfl, rfl⟩
      · exact ⟨by simp, .inr rfl⟩
      · obtain ⟨rfl, rfl⟩ := Prog.trace_done_iff.mp hrest
        exact ⟨by simp, .inl rfl⟩
      · obtain ⟨v, hv⟩ := (hstep _ List.mem_cons_self).ok_of_not_store rfl
        cases hv

/-- **The three ends.** -/
theorem outcome_of_trace {r : Request} {x : Creates} (hx : r.creates = some x)
    {tr : List (Action b)} {reply : Reply}
    (hstep : ∀ e ∈ tr, Op.Step e.op e.before e.result e.after)
    (h : r.handle.Trace tr (.done reply)) : x.Outcome tr reply := by
  rw [handle_creates hx] at h
  obtain ⟨p, hp, hreply⟩ := trace_caught h
  have hinternal : (∀ a, p ≠ .done a) → reply = (Status.INTERNAL, x.none) := by
    intro hne
    rcases caught_eq_done hreply.symm with ⟨y, hy, _⟩ | ⟨_, hinternal⟩
    · exact absurd hy (hne y)
    · exact hinternal
  obtain ⟨hidle, hne⟩ | ⟨adminct, tr₁, w, v, w', tr₂, rfl, hprepare, hrest⟩ :=
    Creation.trace_steps hp
  · rw [hinternal hne]
    exact .refused hidle
  have hstep₂ : ∀ e ∈ tr₂, Op.Step e.op e.before e.result e.after :=
    fun e he ↦ hstep e (List.mem_append_right _ (List.mem_cons_of_mem _ he))
  obtain ⟨hlost, hne⟩ | ⟨e, tr₃, rfl, hlooks, hfinish⟩ := Creation.trace_find hstep₂ hrest
  · rw [hinternal hne]
    exact .lost hprepare hlost
  · obtain ⟨hundefined, rfl | hnone⟩ := Creation.trace_finish
      (fun e he ↦ hstep₂ e (List.mem_cons_of_mem _ he)) hfinish
    · rw [caught_done, Prog.done.injEq] at hreply
      rw [hreply]
      exact .answered hprepare hlooks hundefined
    · -- a handler that has replied is not under way
      have houtcome : (caught id x.none p).outcome = none := outcome_caught_eq_none hnone
      rw [← hreply] at houtcome
      cases houtcome

/-! ## The lookup -/

/-- A key has been looked up, and there was an answer. -/
def LookedUp (tr : List (Action b)) : Prop := ∃ e ∈ tr, e.op.looksUp ∧ e.result.isOk

instance (tr : List (Action b)) : Decidable (LookedUp tr) :=
  inferInstanceAs (Decidable (∃ e ∈ tr, _))

theorem Creation.not_lookedUp_prepare {q : Creation} {tr : List (Action b)} {p' : Routine ℕ}
    (h : q.prepare.Trace tr p') : ∀ e ∈ tr, e.op.looksUp = false := by
  have honly : q.prepare.Only fun o ↦ o.looksUp = false := by
    cases q <;> simp [Creation.prepare, Op.looksUp]
  exact (honly.trace h).1

theorem Creates.Outcome.ok_iff {x : Creates} {tr : List (Action b)} {reply : Reply}
    (h : x.Outcome tr reply) (haccepted : ¬Creation.Idle tr) :
    reply.1 = Status.OK ↔ LookedUp tr := by
  have hinsert : ∀ adminct, (Op.sql (x.call.insert adminct)).looksUp = false := by
    intro adminct
    cases x.call <;> rfl
  cases h with
  | refused hidle => exact absurd hidle haccepted
  | lost hprepare hlost =>
    constructor
    · intro hok
      cases hok
    · rintro ⟨e, he, hlooks, hok⟩
      rw [List.mem_append, List.mem_cons] at he
      rcases he with he | rfl | he
      · rw [Creation.not_lookedUp_prepare hprepare e he] at hlooks
        cases hlooks
      · rw [hinsert] at hlooks
        cases hlooks
      · rw [hlost e he] at hok
        cases hok
  | @answered tr₁ adminct w v w' e tr₂ hprepare hlooks hrest =>
    exact ⟨fun _ ↦ ⟨e, by simp, hlooks⟩, fun _ ↦ rfl⟩

theorem Creates.Outcome.exists_insert {x : Creates} {tr : List (Action b)} {reply : Reply}
    (h : x.Outcome tr reply) (hok : reply.1 = Status.OK) :
    ∃ e ∈ tr, e.op.target = some x.call.table ∧ e.result.isOk := by
  cases h with
  | refused hidle => cases hok
  | lost hprepare hlost => cases hok
  | @answered tr₁ adminct w v w' e tr₂ hprepare hlooks hrest =>
    exact ⟨⟨w, .sql (x.call.insert adminct), .ok v, w'⟩, by simp, x.call.target_insert adminct, rfl⟩

end Wrongthink
