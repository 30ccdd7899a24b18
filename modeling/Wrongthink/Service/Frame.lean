import Wrongthink.Service.WrongthinkServiceImpl

/-!
# What each request can change

A handler changes at most one table, the one of `Request.target`, whatever the database answers and
whoever else is running; and only the two sends and the listening look at channels
(`Request.handle_aside`). Everything that is said later about the users, the bans, the messages or
the channels over whole runs rests on this: a request with another target is out of the question at
once.
-/

namespace Wrongthink

open Concurrent

/-- The actions that change no table but `T`. -/
def Op.Within (T : Option Table) (o : Op) : Prop := o.target = none ∨ o.target = T

theorem Op.Within.target_ne {T' : Option Table} {T : Table} {o : Op} (ho : o.Within T')
    (hT : T' ≠ some T) : o.target ≠ some T := by
  rcases ho with ho | ho
  · rw [ho]
    exact nofun
  · rw [ho]
    exact hT

/-- The actions that moreover have nothing to do with a channel. -/
def Op.Aside (T : Option Table) (o : Op) : Prop := o.Within T ∧ o.channel = none

/-- The table that the handler of a request may change. -/
def Request.target : Request → Option Table
  | BanUser _ _ => some .banned_users
  | GenerateUser _ _ | CreateUser _ => some .users
  | CreateWrongthinkCommunity _ => some .communities
  | CreateWrongthinkChannel _ => some .channels
  | SendWrongthinkMessageWeb _ | SendWrongthinkMessage _ => some .message
  | _ => none

/-- The requests that look at channels: the sends and the listening. -/
def Request.onChannel : Request → Bool
  | SendWrongthinkMessageWeb _ | SendWrongthinkMessage _ | ListenWrongthinkMessages _ _ _ => true
  | _ => false

variable {T : Option Table} {α : Type}

/-! ## Handlers under their `catch` -/

/-- The body of a handler, as its caller sees it. -/
abbrev caught (f : α → Response) (none : α) (p : Routine (Status × α)) : Routine Reply :=
  respond f (WrongthinkServiceImpl.orInternal none p)

@[simp] theorem caught_done {f : α → Response} {none : α} (x : Status × α) :
    caught f none (.done x) = .done (x.1, f x.2) := rfl

@[simp] theorem caught_raise {f : α → Response} {none : α} (e : Exn) :
    caught f none (.raise e) = .done (Status.INTERNAL, f none) := rfl

theorem outcome_caught_eq_none {f : α → Response} {none : α} {p : Routine (Status × α)}
    (hp : p.outcome = Option.none) : (caught f none p).outcome = Option.none := by
  cases p with
  | done x => cases hp
  | raise e => cases hp
  | act o k => rfl

theorem caught_eq_done {f : α → Response} {none : α} {p : Routine (Status × α)} {reply : Reply}
    (h : caught f none p = .done reply) :
    (∃ x, p = .done x ∧ reply = (x.1, f x.2)) ∨
      (∃ e, p = .raise e) ∧ reply = (Status.INTERNAL, f none) := by
  cases p with
  | done x =>
    rw [caught_done, Prog.done.injEq] at h
    exact .inl ⟨x, rfl, h.symm⟩
  | raise e =>
    rw [caught_raise, Prog.done.injEq] at h
    exact .inr ⟨⟨e, rfl⟩, h.symm⟩
  | act o k => cases h

/-- The `catch` performs no action of its own. -/
theorem trace_caught {b : Backend} {f : α → Response} {none : α} {p : Routine (Status × α)}
    {tr : List (Action b)} {p' : Routine Reply} (h : (caught f none p).Trace tr p') :
    ∃ q, p.Trace tr q ∧ p' = caught f none q := by
  induction p generalizing tr with
  | done x =>
    obtain ⟨rfl, rfl⟩ := Prog.trace_done_iff.mp h
    exact ⟨.done x, .nil _, rfl⟩
  | raise e =>
    obtain ⟨rfl, rfl⟩ := Prog.trace_done_iff.mp h
    exact ⟨.raise e, .nil _, rfl⟩
  | act o k ih =>
    rcases Prog.trace_act_iff.mp h with ⟨rfl, rfl⟩ | ⟨w, r, w', tr', rfl, hk⟩
    · exact ⟨.act o k, .nil _, rfl⟩
    · obtain ⟨q, hq, rfl⟩ := ih r hk
      exact ⟨q, .cons ⟨w, o, r, w'⟩ hq, rfl⟩

/-- Nothing is asked of the end of a handler, so its `catch` costs nothing. -/
theorem safe_caught {b : Backend} {R : World b → World b → Prop} [IsPreorder (World b) R]
    {sem G : Semantics Op Op.Result Exn (World b)} {f : α → Response} {none : α}
    {p : Routine (Status × α)} {w : World b}
    (hp : p.Safe sem R G (fun _ _ ↦ True) (fun _ _ ↦ True) w) :
    (caught f none p).Safe sem R G (fun _ _ ↦ True) (fun _ _ ↦ True) w := by
  have hcaught : (WrongthinkServiceImpl.orInternal none p).Safe sem R G (fun _ _ ↦ True)
      (fun _ _ ↦ True) w := hp.tryCatch fun _ _ _ _ _ ↦ trivial
  exact hcaught.bind fun _ _ _ _ _ ↦ trivial

theorem only_respond {P : Op → Prop} {f : α → Response} {p : Routine (Status × α)}
    (hp : p.Only P) : (respond f p).Only P := hp.bind fun _ ↦ trivial

/-! ## The database layer -/

namespace DBPostgres

open Op (Aside Within)

theorem isUserValid_aside (uname token : String) : (isUserValid uname token).Only (Aside T) := by
  simp [isUserValid, Aside, Within, Op.target, Op.channel, Statement.target]

theorem isUserAdmin_aside (uname : String) : (isUserAdmin uname).Only (Aside T) := by
  simp [isUserAdmin, Aside, Within, Op.target, Op.channel, Statement.target]

theorem banUser_aside (uname : String) (days : ℤ) :
    (banUser uname days).Only (Aside (some .banned_users)) := by
  simp only [banUser, Prog.only_perform_bind]
  refine ⟨⟨.inl rfl, rfl⟩, fun _ ↦ ⟨⟨.inl rfl, rfl⟩, fun uid ↦ ?_⟩⟩
  cases uid with
  | none => trivial
  | some uid =>
    refine (Prog.only_perform_bind _ _ _).mpr ⟨⟨.inl rfl, rfl⟩, fun found ↦ ?_⟩
    cases found <;> exact (Prog.only_perform _ _).mpr ⟨.inr rfl, rfl⟩

theorem createUser_aside (uname token : String) (admin : Bool) :
    (createUser uname token admin).Only (Aside (some .users)) := by
  simp [createUser, Aside, Within, Op.target, Op.channel, Statement.target]

theorem createChannel_aside (name : String) (community admin_id : ℤ) (anonymous : Bool) :
    (createChannel name community admin_id anonymous).Only (Aside (some .channels)) := by
  simp [createChannel, Aside, Within, Op.target, Op.channel, Statement.target]

theorem createCommunity_aside (name : String) (admin : ℤ) (pub : Bool) :
    (createCommunity name admin pub).Only (Aside (some .communities)) := by
  simp only [createCommunity, Prog.only_perform_bind]
  refine ⟨⟨.inl rfl, rfl⟩, fun _ ↦ ⟨⟨.inr rfl, rfl⟩,
    fun _ ↦ ⟨⟨.inl rfl, rfl⟩, fun community_id ↦ ?_⟩⟩⟩
  cases community_id with
  | some id => trivial
  | none => exact (Prog.only_perform_bind _ _ _).mpr ⟨⟨.inl rfl, rfl⟩, fun _ ↦ trivial⟩

end DBPostgres

/-! ## The handlers -/

namespace WrongthinkServiceImpl

open Op (Aside Within)

theorem only_orInternal {P : Op → Prop} {none : α} {p : Routine (Status × α)} (hp : p.Only P) :
    (orInternal none p).Only P := hp.tryCatch fun _ ↦ trivial

theorem getCredentials_aside (cmeta : Metadata) :
    (WrongthinkTokenAuth.getCredentials cmeta).Only (Aside T) := by
  rw [WrongthinkTokenAuth.getCredentials]
  split
  · trivial
  · exact (Prog.only_perform_bind _ _ _).mpr ⟨⟨.inl rfl, rfl⟩, fun _ ↦ trivial⟩

theorem banUser_aside (cmeta : Metadata) (request : BanUserRequest) :
    (banUser cmeta request).Only (Aside (some .banned_users)) := by
  apply only_orInternal
  split
  · trivial
  refine (getCredentials_aside cmeta).bind fun creds ↦ ?_
  refine (DBPostgres.isUserValid_aside _ _).bind fun valid ↦ ?_
  split
  · trivial
  refine (DBPostgres.isUserAdmin_aside _).bind fun admin ↦ ?_
  split
  · trivial
  exact (DBPostgres.banUser_aside _ _).bind fun _ ↦ trivial

theorem checkForChannel_only (channelid : ℤ) : (checkForChannel channelid).Only (Within T) := by
  simp only [checkForChannel, Prog.only_perform_bind]
  refine ⟨.inl rfl, fun n ↦ ?_⟩
  split
  · refine Prog.Only.bind ((Prog.only_perform_bind _ _ _).mpr ⟨.inl rfl, fun _ ↦ trivial⟩)
      fun r ↦ ?_
    split
    · exact (Prog.only_perform_bind _ _ _).mpr ⟨.inl rfl, fun _ ↦ trivial⟩
    · trivial
  · trivial

theorem appendMessage_only (id : ℤ) (msg : WrongthinkMessage) :
    (appendMessage id msg).Only (Within T) := by
  simp [appendMessage, Within, Op.target]

theorem sendLoop_only (reader : List WrongthinkMessage) :
    (sendLoop reader).Only (Within (some .message)) := by
  induction reader with
  | nil => trivial
  | cons msg reader ih =>
    refine (checkForChannel_only _).bind fun found ↦ ?_
    split
    · trivial
    refine (appendMessage_only _ _).bind fun _ ↦ ?_
    exact (Prog.only_perform_bind _ _ _).mpr ⟨.inr rfl, fun _ ↦ ih⟩

theorem sendWrongthinkMessageWeb_only (msg : WrongthinkMessage) :
    (sendWrongthinkMessageWeb msg).Only (Within (some .message)) := by
  refine only_orInternal ((Prog.only_perform_bind _ _ _).mpr ⟨.inl rfl, fun _ ↦ ?_⟩)
  refine (checkForChannel_only _).bind fun found ↦ ?_
  split
  · trivial
  refine (appendMessage_only _ _).bind fun _ ↦ ?_
  exact (Prog.only_perform_bind _ _ _).mpr ⟨.inr rfl, fun _ ↦ trivial⟩

theorem listenLoop_only (channelid : ℤ) (l : ThreadId) (turns : ℕ) :
    (listenLoop channelid l turns).Only (Within T) := by
  induction turns with
  | zero => trivial
  | succ turns ih =>
    simp only [listenLoop, Prog.only_perform_bind]
    exact ⟨.inl rfl, fun _ ↦ ⟨.inl rfl, fun _ ↦ ⟨.inl rfl, fun _ ↦ ih⟩⟩⟩

theorem listenWrongthinkMessagesImpl_only (channelid : ℤ) (l : ThreadId) (turns : ℕ) :
    (listenWrongthinkMessagesImpl channelid l turns).Only (Within T) := by
  refine (Prog.only_perform_bind _ _ _).mpr ⟨.inl rfl, fun _ ↦ ?_⟩
  refine (checkForChannel_only _).bind fun found ↦ ?_
  split
  · trivial
  refine (Prog.only_perform_bind _ _ _).mpr ⟨.inl rfl, fun _ ↦ ?_⟩
  exact (listenLoop_only _ _ _).bind fun _ ↦ trivial

theorem listing_aside {β : Type} (q : Statement) (hq : q.target = none)
    (hchannel : (Op.sql q).channel = none) (f : q.Result → Status × List β) :
    (orInternal [] (do perform .session; let rs ← sql q; return f rs)).Only (Aside T) := by
  apply only_orInternal
  refine (Prog.only_perform_bind _ _ _).mpr ⟨⟨.inl rfl, rfl⟩, fun _ ↦ ?_⟩
  exact (Prog.only_perform_bind _ _ _).mpr ⟨⟨.inl hq, hchannel⟩, fun _ ↦ trivial⟩

end WrongthinkServiceImpl

open WrongthinkServiceImpl

theorem Request.handle_aside {r : Request} (hr : r.onChannel = false) :
    r.handle.Only (Op.Aside r.target) := by
  cases r with
  | BanUser cmeta request => exact only_respond (banUser_aside cmeta request)
  | GenerateUser uuid uuid2 =>
    exact only_respond (only_orInternal ((DBPostgres.createUser_aside _ _ _).bind fun _ ↦ trivial))
  | CreateUser request =>
    exact only_respond (only_orInternal ((DBPostgres.createUser_aside _ _ _).bind fun _ ↦ trivial))
  | CreateWrongthinkCommunity request =>
    exact only_respond
      (only_orInternal ((DBPostgres.createCommunity_aside _ _ _).bind fun _ ↦ trivial))
  | CreateWrongthinkChannel request =>
    exact only_respond
      (only_orInternal ((DBPostgres.createChannel_aside _ _ _ _).bind fun _ ↦ trivial))
  | GetWrongthinkCommunities => exact only_respond (listing_aside _ rfl rfl _)
  | GetWrongthinkChannels communityid => exact only_respond (listing_aside _ rfl rfl _)
  | GetWrongthinkMessages channelid => exact only_respond (listing_aside _ rfl rfl _)
  | SendWrongthinkMessageWeb msg => cases hr
  | SendWrongthinkMessage reader => cases hr
  | ListenWrongthinkMessages channelid l turns => cases hr

/-- **Every handler keeps to its table.** -/
theorem Request.handle_only (r : Request) : r.handle.Only (Op.Within r.target) := by
  cases hr : r.onChannel with
  | false => exact (r.handle_aside hr).mono fun _ ho ↦ ho.1
  | true =>
    cases r with
    | SendWrongthinkMessageWeb msg =>
      rw [handle]
      exact only_respond (sendWrongthinkMessageWeb_only msg)
    | SendWrongthinkMessage reader =>
      rw [handle]
      exact only_respond (only_orInternal
        ((Prog.only_perform_bind _ _ _).mpr ⟨.inl rfl, fun _ ↦ sendLoop_only reader⟩))
    | ListenWrongthinkMessages channelid l turns =>
      rw [handle]
      exact only_respond (listenWrongthinkMessagesImpl_only channelid l turns)
    | _ => cases hr

end Wrongthink
