import Wrongthink.Atomicity.Alone
import Wrongthink.Bans.Gate
import Wrongthink.Concurrent.Linearization
import Wrongthink.Messages.Sends

/-!
# The points of the calls

Where a call takes effect: at its write, accepted or not; at the query of a listing; at the answer
that turns a caller of `BanUser` away; and at the loss of a database call before any of these. A
creation goes on after its point, with the lookup of its row. Every other call is over.

A stream of messages has no point, since each of its inserts can be told apart from outside, and a
listener has none, since it does not end.
-/

namespace Wrongthink

open Concurrent WrongthinkServiceImpl

variable {b : Backend}

/-! ## Points -/

/-- The answers that turn a caller of `BanUser` away. -/
def Op.denied : (o : Op) → Except Exn o.Result → Bool
  | sql (.selectUser _ _), .ok false => true
  | sql (.selectAdmin _), .ok false => true
  | sql (.selectUserId _), .ok none => true
  | _, _ => false

/-- The queries of the listings. -/
def Op.lists : Op → Bool
  | sql .selectCommunities | sql (.selectCommunityChannels _) | sql (.selectChannelMessages _) =>
    true
  | _ => false

/-- What a creation does after its insert. -/
def Op.concludes : Op → Bool
  | undefined => true
  | o => o.looksUp

namespace Request

/-- The requests that are neither streams nor listeners. -/
def oneShot : Request → Bool
  | SendWrongthinkMessage _ | ListenWrongthinkMessages _ _ _ => false
  | _ => true

/-- Whether the call takes effect at this action, by its answer. -/
def point : Request → (o : Op) → Except Exn o.Result → Bool
  | BanUser _ _, o, r => o.target.isSome || !r.isOk || o.denied r
  | GenerateUser _ _, o, r | CreateUser _, o, r | CreateWrongthinkCommunity _, o, r
  | CreateWrongthinkChannel _, o, r => o.target.isSome || (!r.isOk && !o.concludes)
  | GetWrongthinkCommunities, o, r | GetWrongthinkChannels _, o, r
  | GetWrongthinkMessages _, o, r => o.target.isSome || !r.isOk || o.lists
  | SendWrongthinkMessageWeb _, o, r => o.target.isSome || !r.isOk
  | SendWrongthinkMessage _, _, _ | ListenWrongthinkMessages _ _ _, _, _ => false

/-- What may come after the point. -/
def After (r : Request) (o : Op) : Prop := r.creates.isSome = true ∧ o.concludes = true

theorem point_of_creates {r : Request} {x : Creates} (hx : r.creates = some x) (o : Op)
    (res : Except Exn o.Result) :
    r.point o res = (o.target.isSome || (!res.isOk && !o.concludes)) := by
  cases r with
  | GenerateUser _ _ | CreateUser _ | CreateWrongthinkCommunity _ | CreateWrongthinkChannel _ => rfl
  | _ => cases hx

theorem point_of_after {r : Request} {o : Op} (h : r.After o) (res : Except Exn o.Result) :
    r.point o res = false := by
  obtain ⟨hcreates, hconcludes⟩ := h
  obtain ⟨x, hx⟩ := Option.isSome_iff_exists.mp hcreates
  have htarget : o.target = none := by
    cases o with
    | undefined => rfl
    | sql q => exact (Op.reads_of_looksUp hconcludes).2
    | _ => cases hconcludes
  rw [point_of_creates hx, htarget, hconcludes]
  simp

theorem target_of_not_point {r : Request} {o : Op} {res : Except Exn o.Result}
    (hr : r.oneShot = true) (h : r.point o res = false) : o.target = none := by
  rw [← Option.isNone_iff_eq_none, ← Option.not_isSome]
  cases r with
  | SendWrongthinkMessage _ | ListenWrongthinkMessages _ _ _ => cases hr
  | _ => simp_all [point]

end Request

/-! ## Every call has one -/

theorem pointed_caught {α : Type} {point : (o : Op) → Except Exn o.Result → Bool}
    {B : (o : Op) → Except Exn o.Result → Prop} {A : Op → Prop} {f : α → Response} {none : α}
    {p : Routine (Status × α)} (hp : p.Pointed point B A) :
    (caught f none p).Pointed point B A := by
  have horInternal : (orInternal none p).Pointed point B A := hp.tryCatch fun _ ↦ trivial
  exact horInternal.bind fun _ ↦ trivial

/-- The answers that a call gets before its point, where the call is over with it. -/
def Op.leads (o : Op) (r : Except Exn o.Result) : Prop :=
  o.lasting r = true ∨ ∃ uid, o.missing r = some uid

section Pointed

variable {A : Op → Prop}

theorem dbBanUser_pointed (cmeta : Metadata) (request : BanUserRequest) :
    (DBPostgres.banUser request.uname request.days).Pointed (Request.BanUser cmeta request).point
      Op.leads A := by
  refine Prog.pointed_perform_bind (fun _ ↦ .inr ⟨rfl, .inl rfl, ?_⟩) fun _ ↦ rfl
  refine Prog.pointed_perform_bind (fun uid ↦ ?_) fun _ ↦ rfl
  cases uid with
  | none => exact .inl ⟨rfl, trivial⟩
  | some uid =>
    refine .inr ⟨rfl, .inl rfl, Prog.pointed_perform_bind (fun found ↦ ?_) fun _ ↦ rfl⟩
    cases found with
    | true => exact .inr ⟨rfl, .inl rfl, Prog.pointed_perform fun _ ↦ rfl⟩
    | false => exact .inr ⟨rfl, .inr ⟨uid, rfl⟩, Prog.pointed_perform fun _ ↦ rfl⟩

theorem handle_banUser_pointed {cmeta : Metadata} {creds : String × String}
    (request : BanUserRequest) (hcreds : WrongthinkTokenAuth.credentials cmeta = some creds) :
    (Request.BanUser cmeta request).handle.Pointed (Request.BanUser cmeta request).point Op.leads
      A := by
  rw [handle_banUser request hcreds]
  refine pointed_caught (Prog.pointed_perform_bind (fun _ ↦ .inr ⟨rfl, .inl rfl, ?_⟩) fun _ ↦ rfl)
  refine Prog.pointed_perform_bind (fun valid ↦ ?_) fun _ ↦ rfl
  cases valid with
  | false => exact .inl ⟨rfl, trivial⟩
  | true =>
    refine .inr ⟨rfl, .inl rfl, ?_⟩
    refine Prog.pointed_perform_bind (fun _ ↦ .inr ⟨rfl, .inl rfl, ?_⟩) fun _ ↦ rfl
    refine Prog.pointed_perform_bind (fun admin ↦ ?_) fun _ ↦ rfl
    cases admin with
    | false => exact .inl ⟨rfl, trivial⟩
    | true => exact .inr ⟨rfl, .inl rfl, (dbBanUser_pointed cmeta request).bind fun _ ↦ trivial⟩

theorem listing_pointed {α : Type} {point : (o : Op) → Except Exn o.Result → Bool} {q : Statement}
    {F : q.Result → Status × α} {f : α → Response} {none : α}
    (hsession : point .session (.ok ()) = false) (hfailed : ∀ o e, point o (.error e) = true)
    (hlists : ∀ r, point (.sql q) r = true) :
    (caught f none (do perform .session; let rs ← sql q; return F rs)).Pointed
      point Op.leads A := by
  refine pointed_caught (Prog.pointed_perform_bind (fun _ ↦ .inr ⟨hsession, .inl rfl, ?_⟩)
    (hfailed _))
  exact Prog.pointed_perform_bind_of_forall hlists fun _ ↦ trivial

theorem concludes_find {α : Type} (q : Creation) (g : ℤ → α) :
    (q.find >>= fun id ↦ q.finish id >>= fun n ↦ (Prog.done (g n) : Routine α)).Only
      fun o ↦ o.concludes = true := by
  refine Prog.Only.bind ?_ fun id ↦ Prog.Only.bind ?_ fun _ ↦ trivial
  · cases q <;> exact (Prog.only_perform _ _).mpr rfl
  · cases q with
    | community name admin pub =>
      cases id with
      | some n => trivial
      | none => exact (Prog.only_perform_bind _ _ _).mpr ⟨rfl, fun _ ↦ trivial⟩
    | _ => trivial

theorem creation_pointed {r : Request} {x : Creates} (hx : r.creates = some x) :
    r.handle.Pointed r.point (fun _ _ ↦ True) r.After := by
  have hafter : ∀ o, o.concludes = true → r.After o := fun o ho ↦ ⟨by rw [hx]; rfl, ho⟩
  rw [handle_creates hx, funext fun o ↦ funext fun res ↦ Request.point_of_creates hx o res]
  refine pointed_caught ?_
  have hinsert : ∀ adminct, (perform (.sql (x.call.insert adminct)) >>= fun _ ↦ x.call.find >>=
      fun id ↦ x.call.finish id >>= fun n ↦
        return (Status.OK, x.response adminct n)).Pointed
      (fun o res ↦ o.target.isSome || (!res.isOk && !o.concludes)) (fun _ _ ↦ True) r.After := by
    intro adminct
    refine Prog.pointed_perform_bind_of_forall (fun res ↦ ?_) fun _ ↦ ?_
    · have htarget : (Op.sql (x.call.insert adminct)).target = some x.call.table :=
        x.call.target_insert adminct
      rw [htarget]
      rfl
    · exact (concludes_find x.call fun n ↦ (Status.OK, x.response adminct n)).mono hafter
  rw [Creates.body, Creation.steps]
  generalize hcall : x.call = q at hinsert ⊢
  cases q with
  | user uname token admin =>
    rw [Creation.prepare, Prog.bind_assoc]
    refine Prog.pointed_perform_bind (fun _ ↦ .inr ⟨rfl, trivial, ?_⟩) fun _ ↦ rfl
    exact Prog.pointed_perform_bind (fun adminct ↦ .inr ⟨rfl, trivial, hinsert adminct⟩) fun _ ↦ rfl
  | channel name community_id admin_id anonymous =>
    rw [Creation.prepare, Prog.bind_assoc]
    exact Prog.pointed_perform_bind (fun _ ↦ .inr ⟨rfl, trivial, hinsert 0⟩) fun _ ↦ rfl
  | community name admin pub =>
    rw [Creation.prepare, Prog.bind_assoc]
    exact Prog.pointed_perform_bind (fun _ ↦ .inr ⟨rfl, trivial, hinsert 0⟩) fun _ ↦ rfl

theorem sendWeb_pointed (msg : WrongthinkMessage) :
    (Request.SendWrongthinkMessageWeb msg).handle.Pointed
      (Request.SendWrongthinkMessageWeb msg).point (fun _ _ ↦ True) A := by
  rw [Request.handle_of_target_message rfl, Request.sends]
  refine pointed_caught (Prog.pointed_perform_bind (fun _ ↦ .inr ⟨rfl, trivial, ?_⟩) fun _ ↦ rfl)
  rw [sendLoop_cons]
  refine Prog.Pointed.bind ?_ fun _ ↦ trivial
  have hrest : (appendMessage msg.channelid msg >>= fun _ ↦ sql (.insertMessage msg.userid
      msg.channelid msg.threadid msg.threadchild msg.text)).Pointed
      (Request.SendWrongthinkMessageWeb msg).point (fun _ _ ↦ True) A := by
    rw [appendMessage, Prog.bind_assoc]
    refine Prog.pointed_perform_bind (fun _ ↦ .inr ⟨rfl, trivial, ?_⟩) fun _ ↦ rfl
    rw [Prog.bind_assoc]
    refine Prog.pointed_perform_bind (fun _ ↦ .inr ⟨rfl, trivial, ?_⟩) fun _ ↦ rfl
    refine Prog.pointed_perform_bind (fun _ ↦ .inr ⟨rfl, trivial, ?_⟩) fun _ ↦ rfl
    exact Prog.pointed_perform fun _ ↦ rfl
  rw [sendOne, cacheChannel, Prog.bind_assoc]
  refine Prog.pointed_perform_bind (fun n ↦ .inr ⟨rfl, trivial, ?_⟩) fun _ ↦ rfl
  split
  · rw [Prog.bind_assoc]
    refine Prog.pointed_perform_bind (fun name ↦ .inr ⟨rfl, trivial, ?_⟩) fun _ ↦ rfl
    exact Prog.pointed_perform_bind (fun _ ↦ .inr ⟨rfl, trivial, hrest⟩) fun _ ↦ rfl
  · exact hrest

end Pointed

/-- **Every call that goes to the database has one point.** -/
theorem handle_pointed {r : Request} (hr : r.oneShot = true) (hact : r.handle.outcome = none) :
    r.handle.Pointed r.point (fun _ _ ↦ True) r.After := by
  have hweaken : r.handle.Pointed r.point Op.leads r.After →
      r.handle.Pointed r.point (fun _ _ ↦ True) r.After := fun h ↦ h.mono fun _ _ _ ↦ trivial
  cases r with
  | BanUser cmeta request =>
    rcases hcreds : WrongthinkTokenAuth.credentials cmeta with _ | creds
    · have hhas : WrongthinkTokenAuth.hasCredentials cmeta = false := by
        rw [← Bool.not_eq_true, WrongthinkTokenAuth.hasCredentials_iff, hcreds]
        simp
      rw [handle_banUser_of_missing request hhas] at hact
      cases hact
    · exact hweaken (handle_banUser_pointed request hcreds)
  | GenerateUser uuid uuid2 => exact creation_pointed rfl
  | CreateUser request => exact creation_pointed rfl
  | CreateWrongthinkCommunity request => exact creation_pointed rfl
  | CreateWrongthinkChannel request => exact creation_pointed rfl
  | GetWrongthinkCommunities | GetWrongthinkChannels _ | GetWrongthinkMessages _ =>
    exact hweaken (listing_pointed rfl
      (fun _ _ ↦ by simp [Request.point, Except.isOk, Except.toBool])
      fun _ ↦ by simp [Request.point, Op.lists])
  | SendWrongthinkMessageWeb msg => exact sendWeb_pointed msg
  | SendWrongthinkMessage reader => cases hr
  | ListenWrongthinkMessages channelid l turns => cases hr

end Wrongthink
