import Wrongthink.Secrecy.Resemblance
import Wrongthink.Service.Serve

/-!
# Tokens and bans stay out of sight

Tokens are there to be compared with those in the metadata of `BanUser`, and nobody else should
learn anything about them. The listings fetch them, though, since they select every column of a join
with `users`; that no listing sends them is a matter of the positions at which the rows are read.

`noninterference` says it of all the handlers together. Take two servers with other tokens and other
bans, and calls that differ in nothing else. Whatever the callers see of the one, except for those
of `BanUser`, they may see of the other, where nobody's `BanUser` need have run at all. What a
password gives away is whether it fits into its column, and `GenerateUser` sends the token it has
made to the one who asked.

The interceptor is left out. It reads both tables of bans, and cancels a call by what it finds: to
show whom it bans is what it is there for.
-/

namespace Wrongthink

open Concurrent Relational

variable {b : Backend}

/-! ## Requests -/

namespace Request

/-- Everybody's requests but `BanUser`. -/
def seen : Request → Bool
  | BanUser _ _ => false
  | _ => true

/-- Requests that differ in what is not to be seen. -/
inductive Resembles (b : Backend) : Request → Request → Prop where
  | same {r : Request} (hr : r.seen = true) : Resembles b r r
  | GenerateUser (uuid uuid2 uuid2')
      (hfit : SameAnswer (fun _ _ ↦ True) (varchar b 50 (WrongthinkServiceImpl.eraseDashes uuid2))
        (varchar b 50 (WrongthinkServiceImpl.eraseDashes uuid2'))) :
      Resembles b (GenerateUser uuid uuid2) (GenerateUser uuid uuid2')
  | CreateUser (uname password password' admin)
      (hfit : SameAnswer (fun _ _ ↦ True) (varchar b 50 password) (varchar b 50 password')) :
      Resembles b (CreateUser ⟨uname, password, admin⟩) (CreateUser ⟨uname, password', admin⟩)
  | BanUser (cmeta request cmeta' request') :
      Resembles b (BanUser cmeta request) (BanUser cmeta' request')

/-- A reply without a token in it. -/
def hush : Response → Response
  | .user u => .user { u with token := "" }
  | response => response

/-- Replies that look the same to a caller: to everybody but the one for whom a token was made, they
are the same. -/
def LooksLike : Request → Reply → Reply → Prop
  | GenerateUser _ _, reply, reply' => reply'.1 = reply.1 ∧ hush reply'.2 = hush reply.2
  | _, reply, reply' => reply = reply'

end Request

/-! ## Handlers in step -/

section InStep

variable {C : Correspondence Op Op.Result} {α : Type}

theorem inStep_caught {Q : Reply → Reply → Prop} {f : α → Response} {none : α}
    {p p' : Routine (Status × α)}
    (hp : p.InStep C (fun x x' ↦ Q (x.1, f x.2) (x'.1, f x'.2)) p')
    (hnone : Q (Status.INTERNAL, f none) (Status.INTERNAL, f none)) :
    (caught f none p).InStep C Q (caught f none p') := by
  have hcaught : (WrongthinkServiceImpl.orInternal none p).InStep C
      (fun x x' ↦ Q (x.1, f x.2) (x'.1, f x'.2)) (WrongthinkServiceImpl.orInternal none p') :=
    hp.tryCatch fun _ ↦ hnone
  exact hcaught.bind fun _ _ hQ ↦ hQ

theorem inStep_createUser {token token' : String}
    (hfit : SameAnswer (fun _ _ ↦ True) (varchar b 50 token) (varchar b 50 token'))
    (uname : String) (admin : Bool) :
    (DBPostgres.createUser uname token admin).InStep (Op.resemblance b) Eq
      (DBPostgres.createUser uname token' admin) := by
  refine .perform_bind (.plain trivial) fun _ _ _ ↦ ?_
  refine .perform_bind (.plain rfl) fun adminct adminct' hct ↦ ?_
  obtain rfl : adminct = adminct' := (Op.Plain.fetched_iff (o := .sql .countAdmins) rfl).mp hct
  refine .perform_bind (.insertUser uname token token' _ hfit) fun _ _ _ ↦ ?_
  refine .perform_bind (.plain rfl) fun uid uid' huid ↦ ?_
  obtain rfl : uid = uid' := (Op.Plain.fetched_iff (o := .sql (.selectUserId uname)) rfl).mp huid
  rfl

theorem writeRows_eq {decode : SqlRow → Except Exn α} {R : SqlRow → SqlRow → Prop}
    {rs rs' : List SqlRow} (h : List.Forall₂ R rs rs')
    (hdecode : ∀ row row', R row row' → decode row = decode row') :
    WrongthinkServiceImpl.writeRows decode rs = WrongthinkServiceImpl.writeRows decode rs' := by
  induction h with
  | nil => rfl
  | cons hrow _ ih =>
    rw [WrongthinkServiceImpl.writeRows, WrongthinkServiceImpl.writeRows, hdecode _ _ hrow, ih]

theorem inStep_listing {q : Statement} {f : List α → Response}
    {g : q.Result → Status × List α} (hq : Op.Resembles b (.sql q) (.sql q))
    (hg : ∀ rs rs', Op.Fetched (.sql q) (.sql q) rs rs' → g rs = g rs') :
    (caught f [] (do perform .session; let rs ← sql q; return g rs)).InStep (Op.resemblance b) Eq
      (caught f [] (do perform .session; let rs ← sql q; return g rs)) := by
  refine inStep_caught (.perform_bind (.plain trivial) fun _ _ _ ↦ ?_) rfl
  refine .perform_bind hq fun rs rs' hrs ↦ ?_
  rw [hg rs rs' hrs]
  rfl

end InStep

/-! ### Plain handlers -/

section Plain

open WrongthinkServiceImpl

theorem inStep_of_plain {p : Routine Reply} (hp : p.Only Op.Plain) :
    p.InStep (Op.resemblance b) Eq p :=
  .of_only (fun _ ho ↦ ⟨.plain ho, fun _ _ ↦ ho.fetched_iff.mp⟩) hp

theorem checkForChannel_plain (channelid : ℤ) : (checkForChannel channelid).Only Op.Plain := by
  refine (Prog.only_perform_bind _ _ _).mpr ⟨trivial, fun n ↦ ?_⟩
  split
  · refine Prog.Only.bind ((Prog.only_perform_bind _ _ _).mpr ⟨rfl, fun _ ↦ trivial⟩) fun r ↦ ?_
    split
    · exact (Prog.only_perform_bind _ _ _).mpr ⟨trivial, fun _ ↦ trivial⟩
    · trivial
  · trivial

theorem appendMessage_plain (id : ℤ) (msg : WrongthinkMessage) :
    (appendMessage id msg).Only Op.Plain := by
  simp [appendMessage, Op.Plain]

theorem sendLoop_plain (reader : List WrongthinkMessage) : (sendLoop reader).Only Op.Plain := by
  induction reader with
  | nil => trivial
  | cons msg reader ih =>
    refine (checkForChannel_plain _).bind fun found ↦ ?_
    split
    · trivial
    refine (appendMessage_plain _ _).bind fun _ ↦ ?_
    exact (Prog.only_perform_bind _ _ _).mpr ⟨rfl, fun _ ↦ ih⟩

theorem sendWrongthinkMessageWeb_plain (msg : WrongthinkMessage) :
    (sendWrongthinkMessageWeb msg).Only Op.Plain := by
  refine only_orInternal ((Prog.only_perform_bind _ _ _).mpr ⟨trivial, fun _ ↦ ?_⟩)
  refine (checkForChannel_plain _).bind fun found ↦ ?_
  split
  · trivial
  refine (appendMessage_plain _ _).bind fun _ ↦ ?_
  exact (Prog.only_perform_bind _ _ _).mpr ⟨rfl, fun _ ↦ trivial⟩

theorem listenLoop_plain (channelid : ℤ) (l : ThreadId) (turns : ℕ) :
    (listenLoop channelid l turns).Only Op.Plain := by
  induction turns with
  | zero => trivial
  | succ turns ih =>
    simp only [listenLoop, Prog.only_perform_bind]
    exact ⟨trivial, fun _ ↦ ⟨trivial, fun _ ↦ ⟨trivial, fun _ ↦ ih⟩⟩⟩

theorem listenWrongthinkMessagesImpl_plain (channelid : ℤ) (l : ThreadId) (turns : ℕ) :
    (listenWrongthinkMessagesImpl channelid l turns).Only Op.Plain := by
  refine (Prog.only_perform_bind _ _ _).mpr ⟨trivial, fun _ ↦ ?_⟩
  refine (checkForChannel_plain _).bind fun found ↦ ?_
  split
  · trivial
  refine (Prog.only_perform_bind _ _ _).mpr ⟨trivial, fun _ ↦ ?_⟩
  exact (listenLoop_plain _ _ _).bind fun _ ↦ trivial

theorem createChannel_plain (name : String) (community admin_id : ℤ) (anonymous : Bool) :
    (DBPostgres.createChannel name community admin_id anonymous).Only Op.Plain := by
  simp [DBPostgres.createChannel, Op.Plain, Statement.plain]

theorem createCommunity_plain (name : String) (admin : ℤ) (pub : Bool) :
    (DBPostgres.createCommunity name admin pub).Only Op.Plain := by
  simp only [DBPostgres.createCommunity, Prog.only_perform_bind]
  refine ⟨trivial, fun _ ↦ ⟨rfl, fun _ ↦ ⟨rfl, fun community_id ↦ ?_⟩⟩⟩
  cases community_id with
  | some id => trivial
  | none => exact (Prog.only_perform_bind _ _ _).mpr ⟨trivial, fun _ ↦ trivial⟩

end Plain

/-! ### Every handler -/

namespace Request

open WrongthinkServiceImpl Statement

theorem inStep_generateUser (uuid : String) {uuid2 uuid2' : String}
    (hfit : SameAnswer (fun _ _ ↦ True) (varchar b 50 (eraseDashes uuid2))
      (varchar b 50 (eraseDashes uuid2'))) :
    (GenerateUser uuid uuid2).handle.InStep (Op.resemblance b) (GenerateUser uuid uuid2).LooksLike
      (GenerateUser uuid uuid2').handle := by
  refine inStep_caught ?_ ⟨rfl, rfl⟩
  refine (inStep_createUser hfit _ _).bind fun x x' hx ↦ ?_
  subst hx
  exact ⟨rfl, rfl⟩

theorem inStep_createUserRequest (uname : String) (admin : Bool) {password password' : String}
    (hfit : SameAnswer (fun _ _ ↦ True) (varchar b 50 password) (varchar b 50 password')) :
    (CreateUser ⟨uname, password, admin⟩).handle.InStep (Op.resemblance b) Eq
      (CreateUser ⟨uname, password', admin⟩).handle := by
  refine inStep_caught ?_ rfl
  refine (inStep_createUser hfit _ _).bind fun x x' hx ↦ ?_
  subst hx
  rfl

theorem inStep_same {r : Request} (hr : r.seen = true) :
    r.handle.InStep (Op.resemblance b) r.LooksLike r.handle := by
  cases r with
  | BanUser _ _ => cases hr
  | GenerateUser uuid uuid2 => exact inStep_generateUser uuid (.refl (fun _ ↦ trivial) _)
  | CreateUser request => exact inStep_createUserRequest _ _ (.refl (fun _ ↦ trivial) _)
  | CreateWrongthinkCommunity request =>
    exact inStep_of_plain (only_respond
      (only_orInternal ((createCommunity_plain _ _ _).bind fun _ ↦ trivial)))
  | CreateWrongthinkChannel request =>
    exact inStep_of_plain (only_respond
      (only_orInternal ((createChannel_plain _ _ _ _).bind fun _ ↦ trivial)))
  | GetWrongthinkCommunities =>
    refine inStep_listing .selectCommunities fun rs rs' hrs ↦ writeRows_eq hrs ?_
    rintro _ _ ⟨x, u, u', hu, rfl, rfl⟩
    -- read at the positions 0, 1 and 5; the token is at 6
    have huname : u.uname = u'.uname := congrArg (·.uname) hu
    change Except.ok _ = Except.ok _
    rw [huname]
  | GetWrongthinkChannels communityid =>
    refine inStep_listing (.selectCommunityChannels _) fun rs rs' hrs ↦ writeRows_eq hrs ?_
    rintro _ _ ⟨x, u, u', hu, rfl, rfl⟩
    have huname : u.uname = u'.uname := congrArg (·.uname) hu
    change Except.ok _ = Except.ok _
    rw [huname]
  | GetWrongthinkMessages channelid =>
    refine inStep_listing (.selectChannelMessages _) fun rs rs' hrs ↦ writeRows_eq hrs ?_
    rintro _ _ ⟨x, u, u', hu, rfl, rfl⟩
    have huname : u.uname = u'.uname := congrArg (·.uname) hu
    have hid : u.user_id = u'.user_id := congrArg (·.user_id) hu
    change Except.ok _ = Except.ok _
    rw [huname, hid]
  | SendWrongthinkMessageWeb msg =>
    rw [handle]
    exact inStep_of_plain (only_respond (sendWrongthinkMessageWeb_plain msg))
  | SendWrongthinkMessage reader =>
    rw [handle]
    exact inStep_of_plain (only_respond (only_orInternal
      ((Prog.only_perform_bind _ _ _).mpr ⟨trivial, fun _ ↦ sendLoop_plain reader⟩)))
  | ListenWrongthinkMessages channelid l turns =>
    rw [handle]
    exact inStep_of_plain (only_respond (listenWrongthinkMessagesImpl_plain channelid l turns))

/-- **A request is handled in step with one that differs in what is not to be seen.** -/
theorem Resembles.inStep {r r' : Request} (h : Resembles b r r') (hr : r.seen = true) :
    r.handle.InStep (Op.resemblance b) r.LooksLike r'.handle := by
  cases h with
  | same _ => exact inStep_same hr
  | GenerateUser uuid _ _ hfit => exact inStep_generateUser uuid hfit
  | CreateUser uname _ _ admin hfit => exact inStep_createUserRequest uname admin hfit
  | BanUser _ _ _ _ => cases hr

end Request

/-! ## The server -/

variable {ι : Type} [DecidableEq ι] {calls calls' : ι → Request}
  {c c' d : Pool ι Op Op.Result Exn Reply (World b)} {l : List (ι × Action b)}

/-- What the run `m` to `d'` of another server has of the run `l` to `c'`. -/
structure Unseen (calls : ι → Request) (c' : Pool ι Op Op.Result Exn Reply (World b))
    (l : List (ι × Action b)) (d' : Pool ι Op Op.Result Exn Reply (World b))
    (m : List (ι × Action b)) : Prop where
  /-- The same actions by the same threads, with the same answers up to the tokens in them. -/
  steps : List.Forall₂ (SameStep (Op.resemblance b)) (l.filter fun x ↦ (calls x.1).seen) m
  /-- No `BanUser` is needed. -/
  still : ∀ i, (calls i).seen = false → view i m = []
  reply : ∀ i reply, (calls i).seen = true → c'.thread i = .done reply →
    ∃ reply', d'.thread i = .done reply' ∧ (calls i).LooksLike reply reply'
  state : c'.state.Resembles d'.state

/-- **Nobody sees tokens or bans.** Whatever the callers of a server see, except those of `BanUser`,
the callers of another server may see whose tokens, bans and calls of `BanUser` are different
ones. -/
theorem noninterference (hresembles : ∀ i, (calls i).Resembles b (calls' i))
    (hstate : c.state.Resembles d.state) (hcalls : ∀ i, c.thread i = (calls i).handle)
    (hcalls' : ∀ i, d.thread i = (calls' i).handle) (h : Pool.Steps Op.Step c l c') :
    ∃ m d', Pool.Steps Op.Step d m d' ∧ Unseen calls c' l d' m := by
  have hstart : Pool.InStep (Op.resemblance b) (Op.Aside (some .banned_users)) World.Resembles
      (fun i ↦ (calls i).seen) (fun i ↦ (calls i).LooksLike) c d := by
    refine ⟨hstate, fun i hi ↦ ?_, fun i hi ↦ ?_⟩
    · rw [hcalls, hcalls']
      exact (hresembles i).inStep hi
    · rw [hcalls]
      cases hr : calls i with
      | BanUser cmeta request => exact Request.handle_aside (r := .BanUser cmeta request) rfl
      | _ =>
        rw [hr] at hi
        cases hi
  obtain ⟨m, d', hsteps, hsame, hend⟩ := hstart.steps Op.unwinds h
  refine ⟨m, d', hsteps, hsame, fun i hi ↦ ?_, fun i reply hi hdone ↦ ?_, hend.state⟩
  · rw [List.eq_nil_iff_forall_not_mem]
    intro e he
    obtain ⟨x, hx, hthread, _⟩ := exists_of_forall₂ hsame.flip (mem_view.mp he)
    have hseen := List.of_mem_filter hx
    rw [← hthread, hi] at hseen
    cases hseen
  · have hin := hend.inStep i hi
    rw [hdone] at hin
    exact hin.of_done

/-! ## Two servers -/

/-- Root bans himself, and others sign up and look around. -/
private def bustle (password token : String) : ℕ → Request
  | 0 => .BanUser [("auth-uname", "root"), ("auth-token", password)] ⟨"root", 1⟩
  | 1 => .GenerateUser "a-b" token
  | _ => .GetWrongthinkCommunities

private def furnished (password token : String) (before : List Request) :
    Pool ℕ Op Op.Result Exn Reply (World .postgres) where
  state := (serve (World.start .postgres 0) (.CreateUser ⟨"root", password, false⟩ ::
    .CreateWrongthinkCommunity ⟨"all", 1, true⟩ :: before)).2
  thread i := (bustle password token i).handle

/-- On the other server root has banned himself before. -/
private def banned : List Request :=
  [.BanUser [("auth-uname", "root"), ("auth-token", "sesame")] ⟨"root", 3⟩]

theorem noninterference_furnished :
    let played := Pool.replay Op.exec (furnished "pw" "c" [])
      [0, 1, 0, 2, 0, 2, 0, 1, 0, 1, 0, 1, 0, 0]
    ∃ m d', Pool.Steps Op.Step (furnished "sesame" "d" banned) m d' ∧
      Unseen (bustle "pw" "c") played.2 played.1 d' m := by
  have hresembles : ∀ i, (bustle "pw" "c" i).Resembles .postgres (bustle "sesame" "d" i)
    | 0 => .BanUser _ _ _ _
    | 1 => .GenerateUser _ _ _ (.ok trivial)
    | _ + 2 => .same rfl
  have hstate : (furnished "pw" "c" []).state.Resembles (furnished "sesame" "d" banned).state :=
    ⟨⟨⟨0, 0, 0, 0⟩, rfl, rfl, rfl, rfl, rfl⟩, rfl⟩
  exact noninterference hresembles hstate (fun _ ↦ rfl) (fun _ ↦ rfl)
    (Pool.replay_sound Op.step_exec _ _)

end Wrongthink
