import Wrongthink.Creation.Handlers
import Wrongthink.Users.Bootstrap
import Wrongthink.Users.Uuids

/-!
# Generated accounts

`GenerateUser` makes a name and a token of two uuids. The column of the names is unique, and
somebody may have registered a name that is drawn later; but as long as the names are nobody else's
(`Fresh`), the insert is accepted, however the calls interleave (`Fresh.error_eq`). So a call fails
only when it loses a statement, and when it does not it is answered with its own row
(`Fresh.answered`).
-/

namespace Wrongthink

open Concurrent WrongthinkServiceImpl

/-! ## Fresh names -/

/-- The requests that draw uuids. -/
def Request.generates : Request → Bool
  | GenerateUser _ _ => true
  | _ => false

theorem Request.exists_generateUser {r : Request} (h : r.generates = true) :
    ∃ uuid uuid2, r = .GenerateUser uuid uuid2 := by
  cases r with
  | GenerateUser uuid uuid2 => exact ⟨uuid, uuid2, rfl⟩
  | _ => cases h

variable {b : Backend} {ι : Type} [DecidableEq ι] {calls : ι → Request} {drawn : ι → Uuid × Uuid}
  {c c' : Pool ι Op Op.Result Exn Reply (World b)} {l : List (ι × Action b)} {i : ι}

/-- The calls draw these uuids, and the names that come of them are nobody else's. -/
structure Fresh (drawn : ι → Uuid × Uuid) (calls : ι → Request) (w : World b) : Prop where
  texts : ∀ i uuid uuid2, calls i = .GenerateUser uuid uuid2 →
    uuid = (drawn i).1.toString ∧ uuid2 = (drawn i).2.toString
  apart : ∀ i j, (calls i).generates = true → (calls j).generates = true →
    (drawn i).1 = (drawn j).1 → i = j
  stored : ∀ i, (calls i).generates = true → ∀ u ∈ w.db.users.rows, u.uname ≠ (drawn i).1.name
  asked : ∀ i, (calls i).generates = true → ∀ j request, calls j = .CreateUser request →
    varchar b 50 request.uname ≠ .ok (drawn i).1.name

theorem Registers.uname_eq {u : UserRow} {e : Action b} (h : Registers u e) {uname token : String}
    {admin : Bool} (hop : e.op = .sql (.insertUser uname token admin))
    (hs : Op.Step e.op e.before e.result e.after) :
    varchar b 50 uname = .ok u.uname ∧ varchar b 50 token = .ok u.token := by
  obtain ⟨w, o, r, w'⟩ := e
  obtain rfl : o = .sql (.insertUser uname token admin) := hop
  obtain ⟨hsome, hrows⟩ := h
  obtain ⟨_, v, hrows', huname, htoken, _⟩ | ⟨⟨x, rfl⟩, _⟩ := hs.insertUser_eq
  · obtain rfl : v = u := by
      rw [hrows, List.append_cancel_left_eq, List.cons.injEq] at hrows'
      exact hrows'.1.symm
    exact ⟨huname, htoken⟩
  · cases hsome

theorem Fresh.eq_of_registers (hfresh : Fresh drawn calls c.state)
    (hcalls : ∀ i, c.thread i = (calls i).handle) (h : Pool.Steps Op.Step c l c')
    (hi : (calls i).generates = true) {u : UserRow} {j : ι} {e : Action b} (hx : (j, e) ∈ l)
    (hu : Registers u e) (hname : u.uname = (drawn i).1.name) : j = i := by
  obtain ⟨uname, token, hop⟩ := Op.eq_of_registered hu.1
  have hstored := (hu.uname_eq hop (h.sem_of_mem hx)).1
  have hwrites : e.op.target = some .users := by
    rw [hop]
    rfl
  have htrace := h.view_trace j
  rw [hcalls] at htrace
  have he : e ∈ view j l := mem_view.mpr hx
  have htarget : (calls j).target = some .users := by
    by_contra hne
    exact (((calls j).handle_only.trace htrace).1 e he).target_ne hne hwrites
  have hinsert : ∀ {x : Creates}, (calls j).creates = some x →
      ∃ adminct, e.op = .sql (x.call.insert adminct) := fun hx ↦
    ((handle_inserts hx).trace htrace).1 e he (by simp [hwrites])
  cases hr : calls j with
  | GenerateUser uuid uuid2 =>
    obtain ⟨adminct, hinsert⟩ := hinsert (by rw [hr]; rfl)
    have heq := hop.symm.trans hinsert
    rw [Creation.insert, Op.sql.injEq, Statement.insertUser.injEq] at heq
    have hdrawn : uname = (drawn j).1.name := by
      rw [heq.1, (hfresh.texts j uuid uuid2 hr).1]
      rfl
    rw [hdrawn, Uuid.varchar_name, Except.ok.injEq] at hstored
    have hsame := Uuid.name_inj.mp (hstored.trans hname)
    exact (hfresh.apart i j hi (by rw [hr]; rfl) hsame.symm).symm
  | CreateUser request =>
    obtain ⟨adminct, hinsert⟩ := hinsert (by rw [hr]; rfl)
    have heq := hop.symm.trans hinsert
    rw [Creation.insert, Op.sql.injEq, Statement.insertUser.injEq] at heq
    rw [heq.1, hname] at hstored
    exact absurd hstored (hfresh.asked i hi j request hr)
  | _ =>
    rw [hr] at htarget
    cases htarget

/-! ## The insert -/

theorem isOk_of_accepted {r : Request} {x : Creates} (hx : r.creates = some x)
    {tr : List (Action b)} {p' : Routine Reply} (htr : r.handle.Trace tr p') {e f : Action b}
    (hf : f ∈ tr) {T : Table} (htarget : f.op.target = some T) (hok : f.result.isOk) (he : e ∈ tr)
    (hwrites : e.op.target ≠ none) : e.result.isOk := by
  rw [handle_creates hx] at htr
  obtain ⟨p, hp, _⟩ := trace_caught htr
  rw [Creates.body] at hp
  obtain ⟨hidle, _⟩ | ⟨adminct, tr₁, w, v, w', tr₂, rfl, hprepare, hrest⟩ := Creation.trace_steps hp
  · exact absurd hidle (Creation.not_idle_of_mem hf htarget hok)
  rw [List.mem_append, List.mem_cons] at he
  rcases he with he | rfl | he
  · exact absurd ((x.call.prepare_reads.trace hprepare).1 e he).2 hwrites
  · rfl
  · have hreads : (x.call.find >>= fun id ↦ x.call.finish id >>= fun n ↦
        return (Status.OK, x.response adminct n)).Only fun o ↦ o.target = none :=
      (x.call.find_reads.mono fun _ ho ↦ ho.2).bind fun id ↦
        (x.call.finish_reads id).bind fun _ ↦ trivial
    exact absurd ((hreads.trace hrest).1 e he) hwrites

theorem handle_generateUser_reads (b : Backend) (uuid uuid2 : String) :
    (Request.GenerateUser uuid uuid2).handle.Only fun o ↦
      o.target = none → ∀ w : World b, ∃ v, (o.exec w).1 = .ok v := by
  refine only_respond (only_orInternal (Prog.Only.bind ?_ fun _ ↦ trivial))
  simp only [DBPostgres.createUser, Prog.only_perform_bind]
  exact ⟨fun _ _ ↦ ⟨_, rfl⟩, fun _ ↦ ⟨fun _ _ ↦ ⟨_, rfl⟩, fun _ ↦ ⟨nofun, fun _ ↦
    ⟨fun _ _ ↦ ⟨_, rfl⟩, fun _ ↦ trivial⟩⟩⟩⟩

/-- Where the insert of a generating call has failed, its name was free: nobody else has it, and the
call has not inserted it itself before. -/
theorem Fresh.free (hfresh : Fresh drawn calls c.state)
    (hcalls : ∀ i, c.thread i = (calls i).handle)
    (h : Pool.Steps Op.Step c l c') (hi : (calls i).generates = true) {e : Action b}
    (he : e ∈ view i l) {x : Exn} (herror : e.result = .error x) (hwrites : e.op.target ≠ none) :
    (drawn i).1.name ∉ e.before.db.users.rows.map (·.uname) := by
  intro htaken
  obtain ⟨u, hu, hname⟩ := List.mem_map.mp htaken
  have hgrows : e.before.Grows c'.state := (grows_of_steps h (mem_view.mp he)).1
  rcases exists_registers h (hgrows.db.users.subset hu) with hold | ⟨⟨j, f⟩, hf, hregisters⟩
  · exact hfresh.stored i hi u hold hname
  · obtain rfl : j = i := hfresh.eq_of_registers hcalls h hi hf hregisters hname
    obtain ⟨uname, token, hop⟩ := Op.eq_of_registered hregisters.1
    have hok : f.result.isOk := by
      obtain ⟨w, o, r, w'⟩ := f
      obtain rfl : o = .sql (.insertUser uname token u.admin) := hop
      rcases r with y | v
      · cases hregisters.1
      · rfl
    obtain ⟨uuid, uuid2, hr⟩ := Request.exists_generateUser hi
    have htrace := h.view_trace j
    rw [hcalls, hr] at htrace
    have hfalse := isOk_of_accepted rfl htrace (mem_view.mpr hf) (T := .users)
      (by rw [hop]; rfl) hok he hwrites
    rw [herror] at hfalse
    cases hfalse

/-- **A name that is nobody else's is accepted.** -/
theorem Fresh.error_eq (hfresh : Fresh drawn calls c.state)
    (hcalls : ∀ i, c.thread i = (calls i).handle) (h : Pool.Steps Op.Step c l c')
    (hi : (calls i).generates = true) {e : Action b} (he : e ∈ view i l) {x : Exn}
    (herror : e.result = .error x) : x = .connectionFailure := by
  by_contra hlinked
  have hs : Op.Step e.op e.before e.result e.after := h.sem_of_view he
  have htrace := h.view_trace i
  obtain ⟨uuid, uuid2, hr⟩ := Request.exists_generateUser hi
  rw [hcalls, hr] at htrace
  obtain ⟨hid, hid2⟩ := hfresh.texts i uuid uuid2 hr
  by_cases htarget : e.op.target = none
  · rw [herror] at hs
    exact hlinked (hs.error_eq (((handle_generateUser_reads b uuid uuid2).trace htrace).1 e he
      htarget))
  have hfree := hfresh.free hcalls h hi he herror htarget
  obtain ⟨adminct, hop⟩ := ((handle_inserts rfl).trace htrace).1 e he htarget
  obtain ⟨w, o, r, w'⟩ := e
  obtain rfl : o = .sql (.insertUser (drawn i).1.name (drawn i).2.name
      (if adminct = 0 then true else false)) := by
    rw [hid, hid2] at hop
    exact hop
  obtain rfl : r = .error x := herror
  have hok := Op.Step.insertUser_isOk_iff hs (by simpa using hlinked) (Uuid.varchar_name b _)
    (.inl ⟨_, Uuid.varchar_name b _⟩)
  cases hok.mpr hfree

/-! ## The answer -/

theorem trace_generateUser {uuid uuid2 : String} {tr : List (Action b)} {reply : Reply}
    (htr : (Request.GenerateUser uuid uuid2).handle.Trace tr (.done reply))
    (hok : ∀ e ∈ tr, e.result.isOk) :
    ∃ (admin : Bool) (uid : Option ℤ) (tr₁ : List (Action b)) (w w₁ v v₁ : World b),
      tr = tr₁ ++ [⟨w, .sql (.insertUser (eraseDashes uuid) (eraseDashes uuid2) admin), .ok (), w₁⟩,
        ⟨v, .sql (.selectUserId (eraseDashes uuid)), .ok uid, v₁⟩] ∧
      reply = (Status.OK, .user ⟨eraseDashes uuid, eraseDashes uuid2, uid.getD 0, admin⟩) := by
  obtain ⟨p, hp, hreply⟩ := trace_caught htr
  have hend : p.outcome ≠ none := by
    intro hnone
    have houtcome : (caught .user default p).outcome = none := outcome_caught_eq_none hnone
    rw [← hreply] at houtcome
    cases houtcome
  simp only [DBPostgres.createUser, Prog.bind_assoc] at hp
  obtain ⟨_, _, _, tr₁, rfl, h₁⟩ := Prog.trace_perform_bind_ended hp hend fun e he _ ↦ hok e he
  obtain ⟨_, adminct, _, tr₂, rfl, h₂⟩ := Prog.trace_perform_bind_ended h₁ hend
    fun e he _ ↦ hok e (List.mem_cons_of_mem _ he)
  obtain ⟨w, _, w₁, tr₃, rfl, h₃⟩ := Prog.trace_perform_bind_ended h₂ hend
    fun e he _ ↦ hok e (List.mem_cons_of_mem _ (List.mem_cons_of_mem _ he))
  obtain ⟨v, uid, v₁, tr₄, rfl, h₄⟩ := Prog.trace_perform_bind_ended h₃ hend fun e he _ ↦
    hok e (List.mem_cons_of_mem _ (List.mem_cons_of_mem _ (List.mem_cons_of_mem _ he)))
  obtain ⟨rfl, rfl⟩ := Prog.trace_done_iff.mp h₄
  rw [caught_done, Prog.done.injEq] at hreply
  exact ⟨_, uid, [_, _], w, w₁, v, v₁, rfl, hreply⟩

theorem exists_generated {u₁ u₂ : Uuid} {admin : Bool} {uid : Option ℤ} {w w₁ v v₁ : World b}
    (hinsert : Op.Step (.sql (.insertUser u₁.name u₂.name admin)) w (.ok ()) w₁)
    (hlater : w₁.Grows v) (hselect : Op.Step (.sql (.selectUserId u₁.name)) v (.ok uid) v₁) :
    ∃ u ∈ v.db.users.rows, u.uname = u₁.name ∧ u.token = u₂.name ∧ u.admin = admin ∧
      uid = some u.user_id := by
  obtain ⟨_, u, hrows, huname, htoken, hadmin, _⟩ := hinsert.insertUser_eq.resolve_right (by simp)
  rw [Uuid.varchar_name, Except.ok.injEq] at huname htoken
  have hu : u ∈ v.db.users.rows := by
    refine hlater.db.users.subset ?_
    rw [hrows]
    simp
  have hmem : (u.user_id, u₁.name) ∈ v.entries .users := by
    rw [World.entries, huname]
    exact List.mem_map_of_mem hu
  have hlookup : uid = (Creation.user u₁.name "" admin).lookup v := Creation.lookup_user hselect
  refine ⟨u, hu, huname.symm, htoken.symm, hadmin, ?_⟩
  rw [hlookup]
  exact Creation.lookup_eq_some hmem

/-- **A generated account.** A call that has ended, and of which nothing was lost, has been answered
with its own row, under the names of the uuids that it has drawn. -/
theorem Fresh.answered (hfresh : Fresh drawn calls c.state)
    (hcalls : ∀ i, c.thread i = (calls i).handle) (h : Pool.Steps Op.Step c l c')
    (hi : (calls i).generates = true) {reply : Reply} (hdone : c'.thread i = .done reply)
    (hlinked : ∀ e ∈ view i l, e.result ≠ .error .connectionFailure) :
    ∃ u ∈ c'.state.db.users.rows, u.uname = (drawn i).1.name ∧ u.token = (drawn i).2.name ∧
      reply = (Status.OK, .user ⟨u.uname, u.token, u.user_id, u.admin⟩) := by
  have hok : ∀ e ∈ view i l, e.result.isOk := by
    intro e he
    cases hresult : e.result with
    | ok v => rfl
    | error x =>
      have hx := hfresh.error_eq hcalls h hi he hresult
      exact absurd (hx ▸ hresult) (hlinked e he)
  have htrace := h.view_trace i
  rw [hcalls, hdone] at htrace
  obtain ⟨uuid, uuid2, hr⟩ := Request.exists_generateUser hi
  rw [hr] at htrace
  obtain ⟨rfl, rfl⟩ := hfresh.texts i uuid uuid2 hr
  obtain ⟨admin, uid, tr₁, w, w₁, v, v₁, hview, rfl⟩ := trace_generateUser htrace hok
  have hgrows : (view i l).Pairwise fun e f ↦ e.after.Grows f.before :=
    h.pairwise_view (fun _ _ hs ↦ hs.grows) i
  rw [hview, List.pairwise_append] at hgrows
  have hlater : w₁.Grows v := (List.pairwise_cons.mp hgrows.2.1).1 _ (List.mem_singleton_self _)
  have hstep : ∀ e ∈ view i l, Op.Step e.op e.before e.result e.after :=
    fun e he ↦ h.sem_of_view he
  rw [hview] at hstep
  have hinsert : Op.Step (.sql (.insertUser (drawn i).1.name (drawn i).2.name admin)) w (.ok ())
      w₁ := hstep _ (List.mem_append_right _ List.mem_cons_self)
  have hselect : Op.Step (.sql (.selectUserId (drawn i).1.name)) v (.ok uid) v₁ :=
    hstep _ (List.mem_append_right _ (List.mem_cons_of_mem _ (List.mem_singleton_self _)))
  obtain ⟨u, hu, huname, htoken, hadmin, huid⟩ := exists_generated hinsert hlater hselect
  have hmem : (i, (⟨v, .sql (.selectUserId (drawn i).1.name), .ok uid, v₁⟩ : Action b)) ∈ l := by
    refine mem_view.mp ?_
    rw [hview]
    exact List.mem_append_right _ (List.mem_cons_of_mem _ (List.mem_singleton_self _))
  have hend : v.Grows c'.state := (grows_of_steps h hmem).1
  refine ⟨u, hend.db.users.subset hu, huname, htoken, ?_⟩
  rw [huid, huname, htoken, hadmin]
  rfl

/-- What can be relied on where uuids are fresh. -/
structure Vouched (drawn : ι → Uuid × Uuid) (calls : ι → Request) (l : List (ι × Action b))
    (c' : Pool ι Op Op.Result Exn Reply (World b)) : Prop where
  /-- Nothing but the connection fails. -/
  accepted : ∀ i, (calls i).generates = true → ∀ e ∈ view i l, ∀ x, e.result = .error x →
    x = .connectionFailure
  /-- A call that has lost nothing is answered with its own row. -/
  answered : ∀ i, (calls i).generates = true → ∀ reply, c'.thread i = .done reply →
    (∀ e ∈ view i l, e.result ≠ .error .connectionFailure) →
      ∃ u ∈ c'.state.db.users.rows, u.uname = (drawn i).1.name ∧ u.token = (drawn i).2.name ∧
        reply = (Status.OK, .user ⟨u.uname, u.token, u.user_id, u.admin⟩)

/-- **Generated accounts do not collide.** Let every generating call draw a uuid of its own for its
name, and let nobody else have that name or ask for it. Then whatever calls run, and however they
interleave: no insert of a generating call is refused, each such call that loses no statement is
answered with its own row, and names and tokens tell the uuids apart that they were made of. -/
theorem generated_accounts (hfresh : Fresh drawn calls c.state)
    (hcalls : ∀ i, c.thread i = (calls i).handle) (h : Pool.Steps Op.Step c l c') :
    Vouched drawn calls l c' ∧ ∀ u v : Uuid, u.name = v.name ↔ u = v :=
  ⟨⟨fun _ hi _ he _ herror ↦ hfresh.error_eq hcalls h hi he herror,
    fun _ hi _ hdone hlinked ↦ hfresh.answered hcalls h hi hdone hlinked⟩,
    fun _ _ ↦ Uuid.name_inj⟩

/-! ## Two accounts at once -/

private def roll (i : ℕ) : Uuid × Uuid :=
  (⟨Vector.replicate 16 (UInt8.ofNat i)⟩, ⟨Vector.replicate 16 0xAB⟩)

/-- Two accounts are generated, and the others ask for a name of their own. -/
private def joiners : ℕ → Request
  | 0 => .GenerateUser (roll 0).1.toString (roll 0).2.toString
  | 1 => .GenerateUser (roll 1).1.toString (roll 1).2.toString
  | _ => .CreateUser ⟨"ann", "pw", false⟩

private def joined : List (ℕ × Action .postgres) ×
    Pool ℕ Op Op.Result Exn Reply (World .postgres) :=
  Pool.replay Op.exec ⟨World.start .postgres 0, fun i ↦ (joiners i).handle⟩
    [0, 1, 1, 0, 2, 2, 1, 2, 0, 0, 1, 2]

private theorem fresh_joiners : Fresh roll joiners (World.start .postgres 0) := by
  have hrolls : (roll 0).1 ≠ (roll 1).1 := by decide
  refine ⟨?_, ?_, fun _ _ u hu ↦ ?_, fun i _ j request hj hname ↦ ?_⟩
  · rintro (_ | _ | i) uuid uuid2 hi
    · cases hi
      exact ⟨rfl, rfl⟩
    · cases hi
      exact ⟨rfl, rfl⟩
    · cases hi
  · rintro (_ | _ | i) (_ | _ | j) hi hj heq
    · rfl
    · exact absurd heq hrolls
    · cases hj
    · exact absurd heq.symm hrolls
    · rfl
    · cases hj
    · cases hi
    · cases hi
    · cases hi
  · cases hu
  · rcases j with _ | _ | j
    · cases hj
    · cases hj
    · cases hj
      have hann := eq_of_varchar_of_length_le (by decide) hname
      have hlength := (roll i).1.length_name
      rw [hann] at hlength
      revert hlength
      decide

theorem generated_accounts_joined : Vouched roll joiners joined.1 joined.2 :=
  (generated_accounts fresh_joiners (fun _ ↦ rfl) (Pool.replay_sound Op.step_exec _ _)).1

end Wrongthink
