import Wrongthink.Atomicity.Points
import Wrongthink.Concurrent.Straight
import Wrongthink.Users.Bootstrap

/-!
# The same answers alone

The sequential half of the argument. A call has come to its point in company. Run it alone, from a
state in which what it had found out is still so and its write is answered alike (`Foresees`): it
comes to the same reply, and leaves the database as the point did (`Repeats`).

The count of the admins is the one answer that need not be the same. What matters of it is whether
it is zero.
-/

namespace Wrongthink

open Concurrent WrongthinkServiceImpl

variable {b : Backend} {α : Type}

/-! ## What a state foretells -/

/-- What a call has found out before its point `e` is so in `v`, where the point is answered as it
was; and what is looked up after the point is what is found right behind it. -/
structure Foresees (tr₁ : List (Action b)) (e : Action b) (tr₂ : List (Action b)) (v : World b) :
    Prop where
  step : ∀ f ∈ tr₁ ++ e :: tr₂, Op.Step f.op f.before f.result f.after
  lasting : ∀ f ∈ tr₁, f.op.lasting f.result = true → f.op.exec v = (f.result, v)
  missing : ∀ tr f uid, tr₁ = tr ++ [f] → f.op.missing f.result = some uid → InsertsBan uid e →
    v.bans uid = 0
  counted : ∀ tr f zero, tr₁ = tr ++ [f] → f.op.counted f.result = some zero → InsertsUser e →
    (v.db.users.rows.countP (·.admin) = 0 ↔ zero = true)
  result : (e.op.exec v).1 = e.result
  db : (e.op.exec v).2.db = e.after.db
  lookup : ∀ f ∈ tr₂, ∀ (q : Creation) n name, q.Inserts e n name →
    q.lookup f.before = q.lookup e.after

namespace Foresees

variable {tr₁ tr₂ : List (Action b)} {e f : Action b} {v : World b}

theorem tail (h : Foresees (f :: tr₁) e tr₂ v) : Foresees tr₁ e tr₂ v :=
  ⟨fun g hg ↦ h.step g (List.mem_cons_of_mem _ hg),
    fun g hg ↦ h.lasting g (List.mem_cons_of_mem _ hg),
    fun tr g uid htr ↦ h.missing (f :: tr) g uid (by rw [htr]; rfl),
    fun tr g zero htr ↦ h.counted (f :: tr) g zero (by rw [htr]; rfl), h.result, h.db, h.lookup⟩

/-- An action that cannot fail by itself is the point, or the call is past it. -/
theorem past {o : Op} {k : o.Result → Routine α} {q : Routine α} (h : Foresees tr₁ e tr₂ v)
    (hlost : e.result ≠ .error .connectionFailure)
    (hnever : ∀ w : World b, ∃ a, (o.exec w).1 = .ok a)
    (htr : (perform o >>= k).Trace (tr₁ ++ e :: tr₂) q) :
    (∃ w a w', tr₁ = [] ∧ e = ⟨w, o, .ok a, w'⟩ ∧ (k a).Trace tr₂ q) ∨
      ∃ w a w' tr, tr₁ = ⟨w, o, .ok a, w'⟩ :: tr ∧ (k a).Trace (tr ++ e :: tr₂) q ∧
        Foresees tr e tr₂ v := by
  rcases Prog.trace_perform_bind_iff.mp htr with
    ⟨hnil, _⟩ | ⟨w, a, w', tr', hcons, hk⟩ | ⟨w, x, w', hcons, rfl⟩
  · simp at hnil
  · rcases tr₁ with _ | ⟨f, tr⟩
    · rw [List.nil_append, List.cons.injEq] at hcons
      obtain ⟨rfl, rfl⟩ := hcons
      exact .inl ⟨w, a, w', rfl, rfl, hk⟩
    · rw [List.cons_append, List.cons.injEq] at hcons
      obtain ⟨rfl, rfl⟩ := hcons
      exact .inr ⟨w, a, w', tr, rfl, hk, h.tail⟩
  · -- what failed was the last action, so it was `e`
    rcases tr₁ with _ | ⟨f, tr⟩
    · rw [List.nil_append, List.cons.injEq] at hcons
      obtain ⟨rfl, rfl⟩ := hcons
      have hstep : Op.Step o w (.error x) w' := h.step ⟨w, o, .error x, w'⟩ (by simp)
      obtain rfl := hstep.error_eq hnever
      exact absurd rfl hlost
    · simp at hcons

end Foresees

/-! ## Repeating a call -/

/-- The program `p`, alone and with the losses `P`, leaves the database `d` and comes to what `q`
has come to, if that has ended. Which exception it was does not matter, since the handlers catch
them all. -/
def Repeats (P : Op → Bool) (p q : Routine α) (v : World b) (d : Database b) : Prop :=
  (p.exec (Op.execBut P) v).2.2.db = d ∧
    ∀ x, q.outcome = some x → x.toOption = (p.exec (Op.execBut P) v).2.1.toOption

namespace Repeats

variable {P : Op → Bool} {p q : Routine α} {v v' : World b} {d : Database b} {o : Op}
  {k : o.Result → Routine α}

theorem done (x : α) : Repeats P (.done x) (.done x) v v.db := by
  refine ⟨rfl, fun y hy ↦ ?_⟩
  rw [← Option.some.inj hy]
  rfl

theorem step {a : o.Result} (hP : P o = false) (ho : o.exec v = (.ok a, v'))
    (h : Repeats P (k a) q v' d) : Repeats P (perform o >>= k) q v d := by
  have hexec : ((perform o >>= k).exec (Op.execBut P) v).2 = ((k a).exec (Op.execBut P) v').2 :=
    Prog.exec_perform_bind_snd ((Op.execBut_of_not hP v).trans ho)
  rw [Repeats, hexec]
  exact h

theorem failed {x y : Exn} (ho : o.execBut P v = (.error x, v')) :
    Repeats P (perform o >>= k) (.raise y) v v'.db := by
  have hexec : (perform o >>= k).exec (Op.execBut P) v = ([⟨v, o, .error x, v'⟩], .error x, v') :=
    Prog.exec_bind_error (Prog.exec_perform_error ho)
  rw [Repeats, hexec]
  refine ⟨rfl, fun z hz ↦ ?_⟩
  rw [← Option.some.inj hz]
  rfl

end Repeats

theorem Database.exec_of_error {d : Database b} {now : ℤ} {q : Statement} {x : Exn}
    (h : (d.exec now q).1 = .error x) : (d.exec now q).2 = d := by
  have heffect := d.exec_effect now q
  rw [h] at heffect
  generalize hd : (d.exec now q).2 = d' at heffect ⊢
  obtain ⟨t, ht⟩ := d
  obtain ⟨t', ht'⟩ := d'
  cases heffect with
  | same _ _ _ => rfl

/-- What a point is answered depends on the database and the clock only. -/
theorem Foresees.exchange {tr₁ tr₂ : List (Action b)} {v v' w w' : World b} {q : Statement}
    {r : Except Exn q.Result} (h : Foresees tr₁ ⟨w, .sql q, r, w'⟩ tr₂ v) (hdb : v'.db = v.db)
    (hnow : v'.now = v.now) : ((Op.sql q).exec v').1 = r ∧ ((Op.sql q).exec v').2.db = w'.db := by
  have hexec : v'.db.exec v'.now q = v.db.exec v.now q := by rw [hdb, hnow]
  exact ⟨(congrArg Prod.fst hexec).trans h.result, (congrArg Prod.snd hexec).trans h.db⟩

theorem Repeats.at {v w' : World b} {o : Op} {k : o.Result → Routine α} {q : Routine α}
    {r : Except Exn o.Result} (h : (o.exec v).1 = r ∧ (o.exec v).2.db = w'.db)
    {P : Op → Bool} (hP : P o = false) (hok : ∀ a v', r = .ok a → v'.db = w'.db →
      Repeats P (k a) q v' w'.db) (herror : ∀ x, r = .error x → ∃ y, q = .raise y) :
    Repeats P (perform o >>= k) q v w'.db := by
  obtain ⟨hresult, hdb⟩ := h
  rcases r with x | a
  · obtain ⟨y, rfl⟩ := herror x rfl
    rw [← hdb]
    exact Repeats.failed ((Op.execBut_of_not hP v).trans (Prod.ext hresult rfl))
  · exact Repeats.step hP (Prod.ext hresult rfl) (hok a _ rfl hdb)

theorem Foresees.repeats_ended {tr₁ tr₂ : List (Action b)} {v w w' : World b} {o : Op}
    {a : o.Result} {k : o.Result → Routine α} {x : α} (h : Foresees tr₁ ⟨w, o, .ok a, w'⟩ tr₂ v)
    (hk : k a = .done x) : Repeats (fun _ ↦ false) (perform o >>= k) (.done x) v w'.db := by
  refine Repeats.at ⟨h.result, h.db⟩ rfl (fun a' v' ha hdb ↦ ?_) fun _ hx ↦ by cases hx
  rw [← Except.ok.inj ha, hk, ← hdb]
  exact Repeats.done x

theorem Foresees.last {tr₁ tr₂ : List (Action b)} {e : Action b} {o : Op} {x : α} {q : Routine α}
    (htr : (perform o >>= fun _ ↦ Prog.done x).Trace (tr₁ ++ e :: tr₂) q) :
    tr₁ = [] ∧ ∃ w r w', e = ⟨w, o, r, w'⟩ ∧ (∀ a, r = .ok a → q = .done x) ∧
      ∀ y, r = .error y → q = .raise y := by
  rcases Prog.trace_perform_bind_iff.mp htr with
    ⟨hnil, _⟩ | ⟨w, a, w', tr', hcons, hk⟩ | ⟨w, y, w', hcons, rfl⟩
  · simp at hnil
  · obtain ⟨rfl, rfl⟩ := Prog.trace_done_iff.mp hk
    rw [List.append_eq_singleton_iff] at hcons
    obtain ⟨rfl, hsingle⟩ := hcons.resolve_right (by simp)
    obtain ⟨rfl, _⟩ := List.cons.inj hsingle
    exact ⟨rfl, w, _, w', rfl, fun _ _ ↦ rfl, fun _ hy ↦ by cases hy⟩
  · rw [List.append_eq_singleton_iff] at hcons
    obtain ⟨rfl, hsingle⟩ := hcons.resolve_right (by simp)
    obtain ⟨rfl, _⟩ := List.cons.inj hsingle
    exact ⟨rfl, w, _, w', rfl, fun _ hy ↦ (by cases hy), fun z hz ↦ by rw [Except.error.inj hz]⟩

theorem Foresees.repeats_last {tr₁ tr₂ : List (Action b)} {e : Action b} {v : World b} {o : Op}
    {x : α} {q : Routine α} (h : Foresees tr₁ e tr₂ v)
    (htr : (perform o >>= fun _ ↦ Prog.done x).Trace (tr₁ ++ e :: tr₂) q) :
    Repeats (fun _ ↦ false) (perform o >>= fun _ ↦ Prog.done x) q v e.after.db := by
  obtain ⟨rfl, w, r, w', rfl, hok, herror⟩ := Foresees.last htr
  refine Repeats.at ⟨h.result, h.db⟩ rfl (fun a v' ha hdb ↦ ?_) fun y hy ↦ ⟨y, herror y hy⟩
  rw [hok a ha, ← hdb]
  exact Repeats.done x

/-! ## `BanUser` -/

section BanUser

variable {tr₁ tr₂ : List (Action b)} {e : Action b} {v : World b}

/-- A user who is already banned when the insert of a ban fails cannot be banned again either. -/
theorem updateBannedUser_of_insert {uid days : ℤ} {x : Exn} (hban : v.bans uid ≠ 0)
    (h : ((Op.sql (.insertBannedUser uid days)).exec v).1 = .error x) :
    ∃ y, ((Op.sql (.updateBannedUser days uid)).exec v).1 = .error y := by
  have hany := World.bans_pos_iff.mp (Nat.pos_of_ne_zero hban)
  have hhas : b = .postgres → v.db.users.has uid = true := by
    intro hb
    obtain ⟨r, hr, hruid⟩ := List.any_eq_true.mp hany
    obtain ⟨u, hu, huid⟩ := (v.db.valid.references hb).banned_user r hr
    exact Relational.Serial.has_iff.mpr ⟨u, hu, huid.trans (of_decide_eq_true hruid)⟩
  change (Statement.written _ (Statement.addBannedUser b v.now v.db.toTables uid days)).1 = _ at h
  change ∃ y, (Statement.written _ (Statement.setBannedUser b v.now v.db.toTables days uid)).1 = _
  rw [Statement.addBannedUser] at h
  rw [Statement.setBannedUser, if_pos hany]
  rcases hepoch : int4 b v.now with y | epoch
  · exact ⟨y, rfl⟩
  rw [hepoch, Statement.ok_bind] at h
  rw [Statement.ok_bind]
  rcases hexpire : int4 b (epoch + days) with y | expire
  · exact ⟨y, rfl⟩
  · rw [hexpire, Statement.ok_bind, if_neg fun hb ↦ hb.2 (hhas hb.1)] at h
    cases h

/-- The look for a ban and the insert of one. A ban that is there only now has been inserted in
between, so the insert has failed, and alone it is the update that fails. -/
theorem insertBan_repeats {uid days : ℤ} {w w' : World b} {x : α} {q : Routine α}
    (hlook : Foresees (⟨w, .sql (.selectBannedUser uid), .ok false, w'⟩ :: tr₁) e tr₂ v)
    (h : Foresees tr₁ e tr₂ v)
    (htr : (sql (.insertBannedUser uid days) >>= fun _ ↦ Prog.done x).Trace (tr₁ ++ e :: tr₂) q) :
    Repeats (fun _ ↦ false) (sql (.selectBannedUser uid) >>= fun found ↦
      (if found then sql (.updateBannedUser days uid) else sql (.insertBannedUser uid days)) >>=
        fun _ ↦ Prog.done x) q v e.after.db := by
  have hselect : (Op.sql (.selectBannedUser uid)).exec v =
      (.ok (v.db.banned_users.any (·.user_id = uid)), v) := rfl
  by_cases hban : v.bans uid = 0
  · have hnone : v.db.banned_users.any (·.user_id = uid) = false := by
      rw [← Bool.not_eq_true, ← World.bans_pos_iff, hban]
      exact Nat.lt_irrefl 0
    rw [hnone] at hselect
    exact Repeats.step rfl hselect (h.repeats_last htr)
  · obtain ⟨rfl, w₂, r, w₂', rfl, _, herror⟩ := Foresees.last htr
    have hsome := World.bans_pos_iff.mp (Nat.pos_of_ne_zero hban)
    rw [hsome] at hselect
    rcases r with y | _
    swap
    · exact absurd (hlook.missing [] _ uid rfl rfl rfl) hban
    have hinsert : ((Op.sql (.insertBannedUser uid days)).exec v).1 = .error y := h.result
    obtain ⟨z, hz⟩ := updateBannedUser_of_insert hban hinsert
    have hsame : v.db = w₂'.db := by
      rw [← h.db]
      exact (Database.exec_of_error hinsert).symm
    rw [herror y rfl, ← hsame]
    refine Repeats.step rfl hselect ?_
    have hupdate := Repeats.failed (P := fun _ ↦ false) (y := y) (k := fun _ ↦ Prog.done x)
      ((Op.execBut_of_not rfl v).trans (Prod.ext hz rfl))
    have hkept : ((Op.sql (.updateBannedUser days uid)).exec v).2.db = v.db :=
      Database.exec_of_error hz
    rw [hkept] at hupdate
    exact hupdate

theorem dbBanUser_repeats {cmeta : Metadata} {request : BanUserRequest} {x : α} {q : Routine α}
    (htr : (DBPostgres.banUser request.uname request.days >>= fun _ ↦ Prog.done x).Trace
      (tr₁ ++ e :: tr₂) q)
    (hpoint : (Request.BanUser cmeta request).point e.op e.result = true)
    (hlost : e.result ≠ .error .connectionFailure) (h : Foresees tr₁ e tr₂ v) :
    Repeats (fun _ ↦ false) (DBPostgres.banUser request.uname request.days >>= fun _ ↦ Prog.done x)
      q v e.after.db := by
  rw [DBPostgres.banUser, Prog.bind_assoc] at htr ⊢
  obtain ⟨w, _, w', rfl, rfl, _⟩ | ⟨_, _, _, tr, rfl, htr₁, h₁⟩ :=
    h.past hlost (fun _ ↦ ⟨_, rfl⟩) htr
  · cases hpoint
  refine Repeats.step rfl (h.lasting _ List.mem_cons_self rfl) ?_
  rw [Prog.bind_assoc] at htr₁ ⊢
  obtain ⟨w, uid, w', rfl, rfl, htr₂⟩ | ⟨w, uid, w', tr, rfl, htr₂, h₂⟩ :=
    h₁.past hlost (fun _ ↦ ⟨_, rfl⟩) htr₁
  · rcases uid with _ | uid
    · -- there is no such user
      obtain ⟨rfl, rfl⟩ := Prog.trace_raise_iff.mp htr₂
      refine Repeats.at ⟨h₁.result, h₁.db⟩ rfl (fun a v' ha hdb ↦ ?_) fun _ hx ↦ by cases hx
      rw [← Except.ok.inj ha]
      exact ⟨hdb, fun y hy ↦ by rw [← Option.some.inj hy]; rfl⟩
    · cases hpoint
  rcases uid with _ | uid
  · have hnil := (Prog.trace_raise_iff.mp htr₂).1
    simp at hnil
  refine Repeats.step rfl (h₁.lasting _ List.mem_cons_self rfl) ?_
  dsimp only at htr₂ ⊢
  rw [Prog.bind_assoc] at htr₂ ⊢
  obtain ⟨w, found, w', rfl, rfl, _⟩ | ⟨w₁, found, w₁', tr, rfl, htr₃, h₃⟩ :=
    h₂.past hlost (fun _ ↦ ⟨_, rfl⟩) htr₂
  · cases found <;> cases hpoint
  cases found with
  | true => exact Repeats.step rfl (h₂.lasting _ List.mem_cons_self rfl) (h₃.repeats_last htr₃)
  | false => exact insertBan_repeats h₂ h₃ htr₃

theorem banUser_repeats {cmeta : Metadata} {creds : String × String} {request : BanUserRequest}
    {q : Routine (Status × String)} {body : Unit → Routine (Status × String)}
    (hbody : body = fun _ ↦ do
      let valid ← sql (.selectUser creds.1 creds.2)
      if !valid then return (⟨.UNAUTHENTICATED, "Invalid user"⟩, "")
      else
        perform .session
        let admin ← sql (.selectAdmin creds.1)
        if !admin then return (⟨.UNAUTHENTICATED, "Invalid permission"⟩, "")
        else
          DBPostgres.banUser request.uname request.days
          return (Status.OK, "test"))
    (htr : (perform .session >>= body).Trace (tr₁ ++ e :: tr₂) q)
    (hpoint : (Request.BanUser cmeta request).point e.op e.result = true)
    (hlost : e.result ≠ .error .connectionFailure) (h : Foresees tr₁ e tr₂ v) :
    Repeats (fun _ ↦ false) (perform .session >>= body) q v e.after.db := by
  subst hbody
  obtain ⟨w, _, w', rfl, rfl, _⟩ | ⟨_, _, _, tr, rfl, htr₁, h₁⟩ :=
    h.past hlost (fun _ ↦ ⟨_, rfl⟩) htr
  · cases hpoint
  refine Repeats.step rfl (h.lasting _ List.mem_cons_self rfl) ?_
  obtain ⟨w, valid, w', rfl, rfl, htr₂⟩ | ⟨w, valid, w', tr, rfl, htr₂, h₂⟩ :=
    h₁.past hlost (fun _ ↦ ⟨_, rfl⟩) htr₁
  · cases valid with
    | true => cases hpoint
    | false =>
      obtain ⟨rfl, rfl⟩ := Prog.trace_done_iff.mp htr₂
      exact h₁.repeats_ended rfl
  cases valid with
  | false =>
    have hnil := (Prog.trace_done_iff.mp htr₂).1
    simp at hnil
  | true =>
    refine Repeats.step rfl (h₁.lasting _ List.mem_cons_self rfl) ?_
    obtain ⟨w, _, w', rfl, rfl, _⟩ | ⟨_, _, _, tr, rfl, htr₃, h₃⟩ :=
      h₂.past hlost (fun _ ↦ ⟨_, rfl⟩) htr₂
    · cases hpoint
    refine Repeats.step rfl (h₂.lasting _ List.mem_cons_self rfl) ?_
    obtain ⟨w, admin, w', rfl, rfl, htr₄⟩ | ⟨w, admin, w', tr, rfl, htr₄, h₄⟩ :=
      h₃.past hlost (fun _ ↦ ⟨_, rfl⟩) htr₃
    · cases admin with
      | true => cases hpoint
      | false =>
        obtain ⟨rfl, rfl⟩ := Prog.trace_done_iff.mp htr₄
        exact h₃.repeats_ended rfl
    cases admin with
    | false =>
      have hnil := (Prog.trace_done_iff.mp htr₄).1
      simp at hnil
    | true =>
      exact Repeats.step rfl (h₃.lasting _ List.mem_cons_self rfl)
        (dbBanUser_repeats htr₄ hpoint hlost h₄)

end BanUser

/-! ## Listings and creations -/

section Creation

variable {tr₁ tr₂ : List (Action b)} {e : Action b} {v : World b}

theorem listing_repeats {r : Request} {s : Statement} {F : s.Result → Status × α}
    {q : Routine (Status × α)} (hs : ∀ w : World b, ∃ rs, ((Op.sql s).exec w).1 = .ok rs)
    (hsession : r.point .session (.ok ()) = false)
    (htr : (do perform .session; let rs ← sql s; return F rs : Routine (Status × α)).Trace
      (tr₁ ++ e :: tr₂) q)
    (hpoint : r.point e.op e.result = true) (hlost : e.result ≠ .error .connectionFailure)
    (h : Foresees tr₁ e tr₂ v) :
    Repeats (fun _ ↦ false) (do perform .session; let rs ← sql s; return F rs) q v e.after.db := by
  obtain ⟨w, _, w', rfl, rfl, _⟩ | ⟨_, _, _, tr, rfl, htr₁, h₁⟩ :=
    h.past hlost (fun _ ↦ ⟨_, rfl⟩) htr
  · rw [hsession] at hpoint
    cases hpoint
  refine Repeats.step rfl (h.lasting _ List.mem_cons_self rfl) ?_
  obtain ⟨w, rs, w', rfl, rfl, htr₂⟩ | ⟨_, _, _, tr, rfl, htr₂, _⟩ := h₁.past hlost hs htr₁
  · obtain ⟨rfl, rfl⟩ := Prog.trace_done_iff.mp htr₂
    exact h₁.repeats_ended rfl
  · have hnil := (Prog.trace_done_iff.mp htr₂).1
    simp at hnil

/-- What a creation inserts, and answers, depends on the count of the admins only in whether it is
zero. -/
theorem Creates.congr {r : Request} {x : Creates} (hx : r.creates = some x) {n n' : ℕ}
    (hn : n = 0 ↔ n' = 0) : x.call.insert n = x.call.insert n' ∧ x.response n = x.response n' := by
  cases r with
  | GenerateUser uuid uuid2 | CreateUser request =>
    obtain rfl := Option.some.inj hx
    simp only [Creation.insert, hn, and_self]
  | CreateWrongthinkCommunity request | CreateWrongthinkChannel request =>
    obtain rfl := Option.some.inj hx
    exact ⟨rfl, rfl⟩
  | _ => cases hx

theorem Creation.insert_error (q : Creation) (n n' : ℕ) {x : Exn}
    (h : ((Op.sql (q.insert n)).exec v).1 = .error x) :
    ((Op.sql (q.insert n')).exec v).1 = .error x := by
  cases q with
  | user uname token admin =>
    change (Statement.written _ (Statement.addUser b v.db.toTables uname token _)).1 = _ at h ⊢
    rw [Statement.addUser] at h ⊢
    rcases huname : varchar b 50 uname with y | uname'
    · rw [huname] at h
      exact h
    rcases htoken : varchar b 50 token with y | token'
    · rw [huname, htoken] at h
      exact h
    rw [huname, htoken, Statement.ok_bind, Statement.ok_bind] at h
    rw [Statement.ok_bind, Statement.ok_bind]
    by_cases htaken : uname' ∈ v.db.toTables.users.rows.map (·.uname)
    · rw [if_pos htaken] at h ⊢
      exact h
    · rw [if_neg htaken] at h
      cases h
  | _ => exact h

theorem Foresees.repeats_refused {q : Creation} {n n' : ℕ} {w w' : World b} {y : Exn}
    {k : (q.insert n').Result → Routine α}
    (h : Foresees tr₁ ⟨w, .sql (q.insert n), .error y, w'⟩ tr₂ v) :
    Repeats (fun _ ↦ false) (sql (q.insert n') >>= k) (.raise y) v w'.db := by
  have hrefused : ((Op.sql (q.insert n')).exec v).1 = .error y := q.insert_error n n' h.result
  have hdb : ((Op.sql (q.insert n')).exec v).2.db = w'.db := by
    have hsame : (v.db.exec v.now (q.insert n)).2 = v.db := Database.exec_of_error h.result
    have hsame' : (v.db.exec v.now (q.insert n')).2 = v.db := Database.exec_of_error hrefused
    rw [← h.db]
    exact hsame'.trans hsame.symm
  rw [← hdb]
  exact Repeats.failed ((Op.execBut_of_not rfl v).trans (Prod.ext hrefused rfl))

theorem Foresees.lookup_eq {q : Creation} {n : ℕ} {a : (q.insert n).Result} {v' w w' : World b}
    {f : Action b} (h : Foresees tr₁ ⟨w, .sql (q.insert n), .ok a, w'⟩ tr₂ v) (hdb : v'.db = w'.db)
    (hf : f ∈ tr₂) : q.lookup f.before = q.lookup v' := by
  have hs : Op.Step (.sql (q.insert n)) w (.ok a) w' :=
    h.step ⟨w, .sql (q.insert n), .ok a, w'⟩ (List.mem_append_right _ List.mem_cons_self)
  obtain ⟨_, m, name, hentries, hname, hnew⟩ := (Creation.insert_eq hs).resolve_right (by simp)
  have hsame : ∀ T, v'.entries T = w'.entries T := by
    intro T
    cases T <;> simp only [World.entries, hdb]
  rw [h.lookup f hf q m name ⟨q.target_insert n, hname, hnew, hentries⟩, Creation.lookup,
    Creation.lookup, hsame]

/-- A lookup has not come, has been lost, or has found the row of the name. -/
theorem Creation.trace_find_iff {q : Creation} {k : Option ℤ → Routine α} {z : Routine α}
    (hstep : ∀ f ∈ tr₂, Op.Step f.op f.before f.result f.after)
    (htr : (q.find >>= k).Trace tr₂ z) : z.outcome = none ∨
      (z = .raise .connectionFailure ∧ ∃ f ∈ tr₂, f.result = .error .connectionFailure) ∨
      ∃ f tr, tr₂ = f :: tr ∧ (k (q.lookup f.before)).Trace tr z := by
  have hperform : ∀ {o : Op} {g : o.Result → Routine α} (_ : (perform o >>= g).Trace tr₂ z)
      (_ : ∀ w : World b, ∃ a, (o.exec w).1 = .ok a), z.outcome = none ∨
      (z = .raise .connectionFailure ∧ ∃ f ∈ tr₂, f.result = .error .connectionFailure) ∨
      ∃ w a w' tr, tr₂ = ⟨w, o, .ok a, w'⟩ :: tr ∧ Op.Step o w (.ok a) w' ∧ (g a).Trace tr z := by
    intro o g h hnever
    rcases Prog.trace_perform_bind_iff.mp h with
      ⟨_, rfl⟩ | ⟨w, a, w', tr, rfl, hrest⟩ | ⟨w, y, w', rfl, rfl⟩
    · exact .inl rfl
    · exact .inr (.inr ⟨w, a, w', tr, rfl, hstep _ List.mem_cons_self, hrest⟩)
    · have hlost : Op.Step o w (.error y) w' := hstep ⟨w, o, .error y, w'⟩ List.mem_cons_self
      obtain rfl := hlost.error_eq hnever
      exact .inr (.inl ⟨rfl, _, List.mem_cons_self, rfl⟩)
  cases q with
  | user uname token admin =>
    refine (hperform htr fun _ ↦ ⟨_, rfl⟩).imp_right (Or.imp_right ?_)
    rintro ⟨w, a, w', tr, rfl, hs, hrest⟩
    have hfound : a = (user uname token admin).lookup w := lookup_user hs
    rw [hfound] at hrest
    exact ⟨_, tr, rfl, hrest⟩
  | channel name community_id admin_id anonymous =>
    refine (hperform htr fun _ ↦ ⟨_, rfl⟩).imp_right (Or.imp_right ?_)
    rintro ⟨w, a, w', tr, rfl, hs, hrest⟩
    have hfound : a = (channel name community_id admin_id anonymous).lookup w := lookup_channel hs
    rw [hfound] at hrest
    exact ⟨_, tr, rfl, hrest⟩
  | community name admin pub =>
    refine (hperform htr fun _ ↦ ⟨_, rfl⟩).imp_right (Or.imp_right ?_)
    rintro ⟨w, a, w', tr, rfl, hs, hrest⟩
    have hfound : a = (community name admin pub).lookup w := lookup_community hs
    rw [hfound] at hrest
    exact ⟨_, tr, rfl, hrest⟩

theorem Repeats.find {q : Creation} {P : Op → Bool} {k : Option ℤ → Routine α} {z : Routine α}
    {d : Database b} (hP : ∀ o, o.looksUp = true → P o = false)
    (h : Repeats P (k (q.lookup v)) z v d) : Repeats P (q.find >>= k) z v d := by
  cases q with
  | user uname token admin =>
    rw [← Creation.lookup_user (Op.step_exec (.sql (.selectUserId uname)) v)] at h
    exact Repeats.step (hP _ rfl) rfl h
  | channel name community_id admin_id anonymous =>
    rw [← Creation.lookup_channel (Op.step_exec (.sql (.selectChannelId name)) v)] at h
    exact Repeats.step (hP _ rfl) rfl h
  | community name admin pub =>
    rw [← Creation.lookup_community (Op.step_exec (.sql (.selectCommunityId name)) v)] at h
    exact Repeats.step (hP _ rfl) rfl h

theorem Repeats.find_lost {q : Creation} {k : Option ℤ → Routine α} {y : Exn} :
    Repeats Op.looksUp (q.find >>= k) (.raise y) v v.db := by
  cases q <;> exact Repeats.failed (Op.execBut_lost rfl rfl v)

theorem Repeats.finish {q : Creation} {P : Op → Bool} {id : Option ℤ} {g : ℤ → α} {z : Routine α}
    (hP : P .undefined = false) (hz : z = .done (g (id.getD 0)) ∨ z.outcome = none) :
    Repeats P (q.finish id >>= fun n ↦ return g n) z v v.db := by
  have hdone : Repeats P (.done (g (id.getD 0))) z v v.db := by
    rcases hz with rfl | hnone
    · exact Repeats.done _
    · exact ⟨rfl, fun x hx ↦ by rw [hnone] at hx; cases hx⟩
  cases q with
  | community name admin pub =>
    cases id with
    | some n => exact hdone
    | none =>
      rw [Creation.finish, Prog.bind_assoc]
      exact Repeats.step hP rfl hdone
  | _ => exact hdone

/-- **The insert of a creation and what follows.** Alone, with the count `n'` instead of `n`. -/
theorem insert_repeats {r : Request} {x : Creates} (hx : r.creates = some x) {n n' : ℕ}
    {q : Routine (Status × Response)}
    (htr : (perform (.sql (x.call.insert n)) >>= fun _ ↦ x.call.find >>= fun id ↦
      x.call.finish id >>= fun m ↦ return (Status.OK, x.response n m)).Trace (tr₁ ++ e :: tr₂) q)
    (hpoint : r.point e.op e.result = true) (h : Foresees tr₁ e tr₂ v)
    (hn : ∀ w a w', tr₁ = [] → e = ⟨w, .sql (x.call.insert n), .ok a, w'⟩ → (n = 0 ↔ n' = 0)) :
    ∃ P : Op → Bool,
      Repeats P (perform (.sql (x.call.insert n')) >>= fun _ ↦ x.call.find >>= fun id ↦
        x.call.finish id >>= fun m ↦ return (Status.OK, x.response n' m)) q v e.after.db ∧
      ((∀ f ∈ tr₂, f.result ≠ .error .connectionFailure) → ∀ o, P o = false) ∧
      ∀ o, P o = true → o.looksUp = true := by
  have hnothing : ∀ o : Op, (fun _ : Op ↦ false) o = true → o.looksUp = true :=
    fun _ ho ↦ by cases ho
  rcases Prog.trace_perform_bind_iff.mp htr with
    ⟨hnil, _⟩ | ⟨w, a, w', tr', hcons, hrest⟩ | ⟨w, y, w', hcons, rfl⟩
  · simp at hnil
  swap
  · -- refused, and so it is alone
    rw [List.append_eq_singleton_iff] at hcons
    obtain ⟨rfl, hsingle⟩ := hcons.resolve_right (by simp)
    obtain ⟨rfl, rfl⟩ := List.cons.inj hsingle
    exact ⟨_, h.repeats_refused, fun _ _ ↦ rfl, hnothing⟩
  rcases tr₁ with _ | ⟨f, tr⟩
  swap
  · -- the point would lie behind the insert
    rw [List.cons_append, List.cons.injEq] at hcons
    obtain ⟨rfl, rfl⟩ := hcons
    have hafter : (x.call.find >>= fun id ↦ x.call.finish id >>= fun m ↦
        (Prog.done (Status.OK, x.response n m) : Routine (Status × Response))).Only
        fun o ↦ o.concludes = true := concludes_find x.call _
    rw [Request.point_of_after ⟨by rw [hx]; rfl, (hafter.trace hrest).1 e (by simp)⟩] at hpoint
    cases hpoint
  rw [List.nil_append, List.cons.injEq] at hcons
  obtain ⟨rfl, rfl⟩ := hcons
  obtain ⟨hinsert, hresponse⟩ := Creates.congr hx (hn w a w' rfl rfl)
  rw [← hinsert, ← hresponse]
  have hstep₂ : ∀ f ∈ tr₂, Op.Step f.op f.before f.result f.after :=
    fun f hf ↦ h.step f (List.mem_cons_of_mem _ hf)
  obtain ⟨v', hv', hdb⟩ : ∃ v', (Op.sql (x.call.insert n)).exec v = (.ok a, v') ∧ v'.db = w'.db :=
    ⟨_, Prod.ext h.result rfl, h.db⟩
  have hwrites : (Op.sql (x.call.insert n)).looksUp = false := by
    cases x.call <;> rfl
  dsimp only
  rw [← hdb]
  obtain hnone | ⟨rfl, hlost⟩ | ⟨f, tr, rfl, hfinish⟩ := Creation.trace_find_iff hstep₂ hrest
  · exact ⟨_, Repeats.step rfl hv' (Repeats.find (fun _ _ ↦ rfl) (Repeats.finish rfl (.inr hnone))),
      fun _ _ ↦ rfl, hnothing⟩
  · refine ⟨Op.looksUp, Repeats.step hwrites hv' Repeats.find_lost, fun hlinked ↦ ?_, fun _ ho ↦ ho⟩
    obtain ⟨f, hf, hflost⟩ := hlost
    exact absurd hflost (hlinked f hf)
  · obtain ⟨_, hz⟩ :=
      Creation.trace_finish (fun g hg ↦ hstep₂ g (List.mem_cons_of_mem _ hg)) hfinish
    rw [h.lookup_eq hdb List.mem_cons_self] at hz
    exact ⟨_, Repeats.step rfl hv' (Repeats.find (fun _ _ ↦ rfl) (Repeats.finish rfl hz)),
      fun _ _ ↦ rfl, hnothing⟩

theorem insertsUser_of_user {q : Creation} (hq : q.table = .users) {n : ℕ} {w w' : World b}
    {a : (q.insert n).Result} : InsertsUser ⟨w, .sql (q.insert n), .ok a, w'⟩ := by
  cases q with
  | user uname token admin => rfl
  | _ => cases hq

theorem creation_repeats {r : Request} {x : Creates} (hx : r.creates = some x)
    {q : Routine (Status × Response)} (htr : x.body.Trace (tr₁ ++ e :: tr₂) q)
    (hpoint : r.point e.op e.result = true) (hlost : e.result ≠ .error .connectionFailure)
    (h : Foresees tr₁ e tr₂ v) : ∃ P : Op → Bool, Repeats P x.body q v e.after.db ∧
      ((∀ f ∈ tr₂, f.result ≠ .error .connectionFailure) → ∀ o, P o = false) := by
  have hreads : ∀ {P : Op → Bool}, (∀ o, P o = true → o.looksUp = true) →
      ∀ o : Op, o.looksUp = false → P o = false := by
    intro P hP o ho
    rw [← Bool.not_eq_true]
    exact fun hPo ↦ by rw [hP o hPo] at ho; cases ho
  rw [Creates.body, Creation.steps] at htr ⊢
  by_cases htable : x.call.table = .users
  · have hprepare : x.call.prepare = perform .session >>= fun _ ↦ sql .countAdmins := by
      cases hcall : x.call with
      | user _ _ _ => rfl
      | _ => rw [hcall] at htable; cases htable
    rw [hprepare, Prog.bind_assoc] at htr ⊢
    obtain ⟨w, _, w', rfl, rfl, _⟩ | ⟨_, _, _, tr, rfl, htr₁, h₁⟩ :=
      h.past hlost (fun _ ↦ ⟨_, rfl⟩) htr
    · rw [Request.point_of_creates hx] at hpoint
      cases hpoint
    obtain ⟨w, n, w', rfl, rfl, _⟩ | ⟨w, n, w', tr, rfl, htr₂, h₂⟩ :=
      h₁.past hlost (fun _ ↦ ⟨_, rfl⟩) htr₁
    · rw [Request.point_of_creates hx] at hpoint
      cases hpoint
    have hn : ∀ w₂ a w₂', tr = [] → e = ⟨w₂, .sql (x.call.insert n), .ok a, w₂'⟩ →
        (n = 0 ↔ v.db.users.rows.countP (·.admin) = 0) := by
      rintro w₂ a w₂' rfl rfl
      rw [h₁.counted [] _ (n = 0) rfl rfl (insertsUser_of_user htable), decide_eq_true_eq]
    obtain ⟨P, hrepeats, hlinked, hP⟩ := insert_repeats hx htr₂ hpoint h₂ hn
    exact ⟨P, Repeats.step (hreads hP _ rfl) (h.lasting _ List.mem_cons_self rfl)
      (Repeats.step (hreads hP _ rfl) rfl hrepeats), hlinked⟩
  · have hprepare : x.call.prepare = perform .session >>= fun _ ↦ return 0 := by
      cases hcall : x.call with
      | user _ _ _ => exact absurd (by rw [hcall]; rfl) htable
      | _ => rfl
    rw [hprepare, Prog.bind_assoc] at htr ⊢
    obtain ⟨w, _, w', rfl, rfl, _⟩ | ⟨_, _, _, tr, rfl, htr₁, h₁⟩ :=
      h.past hlost (fun _ ↦ ⟨_, rfl⟩) htr
    · rw [Request.point_of_creates hx] at hpoint
      cases hpoint
    obtain ⟨P, hrepeats, hlinked, hP⟩ := insert_repeats hx htr₁ hpoint h₁
      fun _ _ _ _ _ ↦ (Iff.rfl : 0 = 0 ↔ 0 = 0)
    exact ⟨P, Repeats.step (hreads hP _ rfl) (h.lasting _ List.mem_cons_self rfl) hrepeats, hlinked⟩

end Creation

/-! ## A message from the web -/

section Send

variable {tr₁ tr₂ : List (Action b)} {e : Action b} {v : World b}

/-- What a send does before its insert. -/
def beforeInsert (msg : WrongthinkMessage) : Routine Unit := do
  perform .session
  cacheChannel msg.channelid
  appendMessage msg.channelid msg

theorem sendWeb_eq (msg : WrongthinkMessage) :
    (do perform .session; sendLoop [msg] : Routine (Status × Unit)) = beforeInsert msg >>= fun _ ↦
      perform (.sql
        (.insertMessage msg.userid msg.channelid msg.threadid msg.threadchild msg.text)) >>=
        fun _ ↦ return (Status.OK, ()) := by
  simp only [sendLoop_cons, sendOne, beforeInsert, Prog.bind_assoc]
  rfl

theorem beforeInsert_only (msg : WrongthinkMessage) : (beforeInsert msg).Only fun o ↦
    o.target = none ∧ ∀ w : World b, ∃ a, (o.exec w).1 = .ok a := by
  refine (Prog.only_perform_bind _ _ _).mpr ⟨⟨rfl, fun _ ↦ ⟨_, rfl⟩⟩, fun _ ↦ ?_⟩
  refine (cacheChannel_only ⟨rfl, fun _ ↦ ⟨_, rfl⟩⟩ ⟨rfl, fun _ ↦ ⟨_, rfl⟩⟩
    fun _ ↦ ⟨rfl, fun _ ↦ ⟨_, rfl⟩⟩).bind fun _ ↦ ?_
  refine (Prog.only_perform_bind _ _ _).mpr ⟨⟨rfl, fun _ ↦ ⟨_, rfl⟩⟩, fun _ ↦ ?_⟩
  refine (Prog.only_perform_bind _ _ _).mpr ⟨⟨rfl, fun _ ↦ ⟨_, rfl⟩⟩, fun _ ↦ ?_⟩
  exact (Prog.only_perform _ _).mpr ⟨rfl, fun _ ↦ ⟨_, rfl⟩⟩

theorem Repeats.beforeInsert {msg : WrongthinkMessage} {k : Unit → Routine α} {q : Routine α}
    {d : Database b} (h : ∀ v' : World b, v'.db = v.db → v'.now = v.now →
      Repeats (fun _ ↦ false) (k ()) q v' d) :
    Repeats (fun _ ↦ false) (Wrongthink.beforeInsert msg >>= k) q v d := by
  have happend : ∀ v' : World b, v'.db = v.db → v'.now = v.now →
      Repeats (fun _ ↦ false) (appendMessage msg.channelid msg >>= k) q v' d := by
    intro v' hdb hnow
    rw [appendMessage, Prog.bind_assoc]
    refine Repeats.step rfl rfl ?_
    rw [Prog.bind_assoc]
    exact Repeats.step rfl rfl (Repeats.step rfl rfl (h _ hdb hnow))
  rw [Wrongthink.beforeInsert, Prog.bind_assoc]
  refine Repeats.step rfl rfl ?_
  rw [Prog.bind_assoc, cacheChannel, Prog.bind_assoc]
  refine Repeats.step rfl rfl ?_
  generalize (if (v.channelMap msg.channelid).isSome then 1 else 0) = n
  by_cases hn : n ≠ 1
  · rw [if_pos hn, Prog.bind_assoc]
    exact Repeats.step rfl rfl (Repeats.step rfl rfl (happend _ rfl rfl))
  · rw [if_neg hn]
    exact happend _ rfl rfl

private theorem eq_of_append_eq_concat {κ : Type} {l₁ l₂ l : List κ} {x y : κ}
    (h : l₁ ++ x :: l₂ = l ++ [y]) (hx : x ∉ l) : x = y ∧ l₂ = [] := by
  rcases List.eq_nil_or_concat l₂ with rfl | ⟨l₃, z, rfl⟩
  · exact ⟨(List.append_singleton_inj.mp h).2, rfl⟩
  · rw [List.concat_eq_append, ← List.cons_append, ← List.append_assoc,
      List.append_singleton_inj] at h
    rw [← h.1] at hx
    simp at hx

theorem sendWeb_repeats {msg : WrongthinkMessage} {q : Routine (Status × Unit)}
    (htr : (do perform .session; sendLoop [msg] : Routine (Status × Unit)).Trace
      (tr₁ ++ e :: tr₂) q)
    (hpoint : (Request.SendWrongthinkMessageWeb msg).point e.op e.result = true)
    (hlost : e.result ≠ .error .connectionFailure) (h : Foresees tr₁ e tr₂ v) :
    Repeats (fun _ ↦ false) (do perform .session; sendLoop [msg]) q v e.after.db := by
  rw [sendWeb_eq] at htr ⊢
  -- the point is none of the actions before the insert
  have hbefore : ∀ tr (p' : Routine Unit), (beforeInsert msg).Trace tr p' → e ∉ tr := by
    intro tr p' hp' he
    obtain ⟨htarget, hnever⟩ := ((beforeInsert_only msg).trace hp').1 e he
    rcases hr : e.result with y | a
    · have hs := h.step e (by simp)
      rw [hr] at hs
      rw [hs.error_eq hnever] at hr
      exact hlost hr
    · rw [Request.point, htarget, hr] at hpoint
      cases hpoint
  rcases htr.of_around with
    ⟨⟨p', hp'⟩, _⟩ | ⟨_, tr, w, y, w', hl, hp', rfl⟩ | ⟨_, tr, w, a, w', tr', hl, hp', hdone⟩
  · exact absurd (by simp) (hbefore _ p' hp')
  · obtain ⟨rfl, rfl⟩ := eq_of_append_eq_concat hl (hbefore tr _ hp')
    refine Repeats.beforeInsert fun v' hdb hnow ↦ ?_
    exact Repeats.at (h.exchange hdb hnow) rfl (fun _ _ ha ↦ by cases ha) fun _ _ ↦ ⟨y, rfl⟩
  · obtain ⟨rfl, rfl⟩ := Prog.trace_done_iff.mp hdone
    obtain ⟨rfl, rfl⟩ := eq_of_append_eq_concat hl (hbefore tr _ hp')
    refine Repeats.beforeInsert fun v' hdb hnow ↦ ?_
    refine Repeats.at (h.exchange hdb hnow) rfl (fun _ v'' _ hdb' ↦ ?_) fun _ hy ↦ by cases hy
    rw [← hdb']
    exact Repeats.done _

end Send

/-! ## Every call -/

/-- The body of a handler opens a session, catches nothing, and can be repeated alone. -/
structure Body {α : Type} (b : Backend) (r : Request) (p : Routine (Status × α)) : Prop where
  opens : ∃ k, p = perform .session >>= k
  uncaught : p.Uncaught
  repeats : ∀ (tr₁ : List (Action b)) e tr₂ q v, p.Trace (tr₁ ++ e :: tr₂) q →
    r.point e.op e.result = true → e.result ≠ .error .connectionFailure → Foresees tr₁ e tr₂ v →
    ∃ P : Op → Bool, Repeats P p q v e.after.db ∧
      ((∀ f ∈ tr₂, f.result ≠ .error .connectionFailure) → ∀ o, P o = false)

theorem dbBanUser_uncaught (uname : String) (days : ℤ) :
    (DBPostgres.banUser uname days).Uncaught := by
  simp only [DBPostgres.banUser, Prog.uncaught_perform_bind]
  intro _ uid
  cases uid with
  | none => trivial
  | some uid =>
    refine (Prog.uncaught_perform_bind _ _).mpr fun found ↦ ?_
    cases found <;> exact Prog.uncaught_perform _

theorem body_banUser {cmeta : Metadata} {creds : String × String} (request : BanUserRequest)
    (hcreds : WrongthinkTokenAuth.credentials cmeta = some creds) :
    ∃ p, (Request.BanUser cmeta request).handle = caught .generic "" p ∧
      Body b (.BanUser cmeta request) p := by
  refine ⟨_, handle_banUser request hcreds, ⟨_, rfl⟩, ?_, fun tr₁ e tr₂ q v htr hpoint hlost h ↦
    ⟨_, banUser_repeats rfl htr hpoint hlost h, fun _ _ ↦ rfl⟩⟩
  simp only [Prog.uncaught_perform_bind]
  intro _ valid
  cases valid with
  | false => trivial
  | true =>
    refine (Prog.uncaught_perform_bind _ _).mpr fun _ ↦
      (Prog.uncaught_perform_bind _ _).mpr fun admin ↦ ?_
    cases admin with
    | false => trivial
    | true => exact (dbBanUser_uncaught _ _).bind fun _ ↦ trivial

theorem body_creates {r : Request} {x : Creates} (hx : r.creates = some x) : Body b r x.body := by
  refine ⟨?_, ?_, fun tr₁ e tr₂ q v htr hpoint hlost h ↦ creation_repeats hx htr hpoint hlost h⟩
  · rw [Creates.body, Creation.steps]
    cases hcall : x.call <;> exact ⟨_, by rw [Creation.prepare, Prog.bind_assoc]⟩
  · rw [Creates.body, Creation.steps]
    refine Prog.Uncaught.bind ?_ fun adminct ↦ (Prog.uncaught_perform_bind _ _).mpr fun _ ↦
      Prog.Uncaught.bind ?_ fun id ↦ Prog.Uncaught.bind ?_ fun _ ↦ trivial
    · cases x.call <;> simp [Creation.prepare]
    · cases x.call <;> exact Prog.uncaught_perform _
    · cases x.call with
      | community name admin pub =>
        cases id with
        | some n => trivial
        | none => exact (Prog.uncaught_perform_bind _ _).mpr fun _ ↦ trivial
      | _ => trivial

theorem body_listing {r : Request} {s : Statement} {F : s.Result → Status × α}
    (hs : ∀ w : World b, ∃ rs, ((Op.sql s).exec w).1 = .ok rs)
    (hsession : r.point .session (.ok ()) = false) :
    Body b r (do perform .session; let rs ← sql s; return F rs) := by
  refine ⟨⟨_, rfl⟩, ?_, fun tr₁ e tr₂ q v htr hpoint hlost h ↦
    ⟨_, listing_repeats hs hsession htr hpoint hlost h, fun _ _ ↦ rfl⟩⟩
  simp only [Prog.uncaught_perform_bind]
  exact fun _ _ ↦ trivial

theorem body_sendWeb (msg : WrongthinkMessage) :
    Body b (.SendWrongthinkMessageWeb msg) (do perform .session; sendLoop [msg]) := by
  refine ⟨⟨_, rfl⟩, ?_, fun tr₁ e tr₂ q v htr hpoint hlost h ↦
    ⟨_, sendWeb_repeats htr hpoint hlost h, fun _ _ ↦ rfl⟩⟩
  rw [sendWeb_eq]
  refine Prog.Uncaught.bind ?_ fun _ ↦ (Prog.uncaught_perform_bind _ _).mpr fun _ ↦ trivial
  refine (Prog.uncaught_perform_bind _ _).mpr fun _ ↦ Prog.Uncaught.bind ?_ fun _ ↦ ?_
  · refine (Prog.uncaught_perform_bind _ _).mpr fun n ↦ ?_
    split
    · exact (Prog.uncaught_perform_bind _ _).mpr fun _ ↦ Prog.uncaught_perform _
    · trivial
  · simp [appendMessage]

/-- **Every call can be repeated alone.** -/
theorem exists_body {r : Request} (hr : r.oneShot = true) (hact : r.handle.outcome = none) :
    ∃ (β : Type) (f : β → Response) (none : β) (p : Routine (Status × β)),
      r.handle = caught f none p ∧ Body b r p := by
  have hcreates : ∀ x, r.creates = some x → ∃ (β : Type) (f : β → Response) (none : β)
      (p : Routine (Status × β)), r.handle = caught f none p ∧ Body b r p :=
    fun x hx ↦ ⟨_, _, _, _, handle_creates hx, body_creates hx⟩
  cases r with
  | BanUser cmeta request =>
    rcases hcreds : WrongthinkTokenAuth.credentials cmeta with _ | creds
    · have hhas : WrongthinkTokenAuth.hasCredentials cmeta = false := by
        rw [← Bool.not_eq_true, WrongthinkTokenAuth.hasCredentials_iff, hcreds]
        simp
      rw [handle_banUser_of_missing request hhas] at hact
      cases hact
    · obtain ⟨p, hp, hbody⟩ := body_banUser (b := b) request hcreds
      exact ⟨_, _, _, p, hp, hbody⟩
  | GenerateUser uuid uuid2 => exact hcreates _ rfl
  | CreateUser request => exact hcreates _ rfl
  | CreateWrongthinkCommunity request => exact hcreates _ rfl
  | CreateWrongthinkChannel request => exact hcreates _ rfl
  | GetWrongthinkCommunities => exact ⟨_, _, _, _, rfl, body_listing (fun _ ↦ ⟨_, rfl⟩) rfl⟩
  | GetWrongthinkChannels communityid =>
    exact ⟨_, _, _, _, rfl, body_listing (fun _ ↦ ⟨_, rfl⟩) rfl⟩
  | GetWrongthinkMessages channelid => exact ⟨_, _, _, _, rfl, body_listing (fun _ ↦ ⟨_, rfl⟩) rfl⟩
  | SendWrongthinkMessageWeb msg =>
    exact ⟨_, _, _, _, Request.handle_of_target_message rfl, body_sendWeb msg⟩
  | SendWrongthinkMessage reader => cases hr
  | ListenWrongthinkMessages channelid l turns => cases hr

end Wrongthink
