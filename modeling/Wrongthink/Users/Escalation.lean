import Wrongthink.Bans.Gate
import Wrongthink.Service.Serve
import Wrongthink.Users.FirstAdmin

/-!
# Who becomes an admin, and who gets to ban

Once there is an admin, a new one is only made by a `CreateUser` request that asks for it. Anybody
may send one: `CreateUser` looks at no credentials. So a history of requests in which nobody uses
the credentials of an admin may still add admins and, with their credentials, bans
(`exists_escalation`). What is true is that it adds no others: the admins at the end are those at
the start and those that were asked for, and as long as nobody uses the credentials of either, the
bans stay as they are (`escalation_only_by_createUser`).
-/

namespace Wrongthink

open Concurrent

variable {b : Backend}

/-! ## What a request says about users -/

namespace Request

/-- The admins that a request asks for, as they are stored. -/
def Promotes (b : Backend) : Request → UserRow → Prop
  | CreateUser request, u => request.admin = true ∧ varchar b 50 request.uname = .ok u.uname ∧
      varchar b 50 request.password = .ok u.token
  | _, _ => False

/-- The client metadata that the handler of a request reads. -/
def cmeta : Request → Metadata
  | BanUser cmeta _ => cmeta
  | _ => []

/-- The pair that the handler takes from the metadata. -/
def credentials (r : Request) : Option (String × String) := WrongthinkTokenAuth.credentials r.cmeta

/-- The metadata holds the name and the token of a user, under their keys. -/
def Carries (r : Request) (u : UserRow) : Prop :=
  (WrongthinkTokenAuth.AUTH_UNAME_KEY, u.uname) ∈ r.cmeta ∧
    (WrongthinkTokenAuth.AUTH_TOKEN_KEY, u.token) ∈ r.cmeta

instance (r : Request) (u : UserRow) : Decidable (r.Carries u) :=
  inferInstanceAs (Decidable (_ ∧ _))

end Request

/-! ## Added admins -/

namespace World

def admins (w : World b) : List UserRow := w.db.users.rows.filter (·.admin)

/-- From `w` to `w'`, only admins in `S` have been added. -/
def Adds (S : UserRow → Prop) (w w' : World b) : Prop :=
  ∃ new, w'.admins = w.admins ++ new ∧ ∀ u ∈ new, S u

variable {S S' : UserRow → Prop} {w w' : World b}

instance : IsPreorder (World b) (Adds S) where
  refl w := ⟨[], by simp, by simp⟩
  trans w₁ w₂ w₃ h h' := by
    obtain ⟨new, hnew, hS⟩ := h
    obtain ⟨new', hnew', hS'⟩ := h'
    refine ⟨new ++ new', by rw [hnew', hnew, List.append_assoc], fun u hu ↦ ?_⟩
    rcases List.mem_append.mp hu with hu | hu
    · exact hS u hu
    · exact hS' u hu

theorem Adds.mono (h : w.Adds S w') (hS : ∀ u, S u → S' u) : w.Adds S' w' := by
  obtain ⟨new, hnew, hnewS⟩ := h
  exact ⟨new, hnew, fun u hu ↦ hS u (hnewS u hu)⟩

theorem nodup_users (w : World b) : w.db.users.rows.Nodup := w.db.users.nodup_keys.of_map _

theorem Grants.mem_admins {creds : String × String} (h : w.Grants creds) :
    ∃ u ∈ w.admins, (u.uname, u.token) = creds := by
  obtain ⟨u, hu, huname, htoken, hadmin⟩ := grants_iff.mp h
  exact ⟨u, List.mem_filter.mpr ⟨hu, hadmin⟩, Prod.ext huname htoken⟩

end World

theorem Op.Step.adds {S : UserRow → Prop} {o : Op} {w w' : World b} {r : Except Exn o.Result}
    (h : Op.Step o w r w') (ho : o.target ≠ some .users) : w.Adds S w' := by
  have hrows : w'.db.users.rows = w.db.users.rows := h.frame .users ho
  exact ⟨[], by rw [World.admins, hrows, World.admins, List.append_nil], by simp⟩

theorem Op.Step.adds_insertUser {S : UserRow → Prop} {uname token : String} {admin : Bool}
    {w w' : World b} {r : Except Exn Unit}
    (h : Op.Step (.sql (.insertUser uname token admin)) w r w')
    (hS : admin = true → ∀ u : UserRow, varchar b 50 uname = .ok u.uname →
      varchar b 50 token = .ok u.token → S u) : w.Adds S w' := by
  obtain ⟨now, gaps, heffect⟩ := h.effect
  rw [World.Adds, World.admins]
  generalize w'.db.toTables = t' at *
  cases heffect with
  | same _ _ _ => exact ⟨[], by rw [List.append_nil]; rfl, by simp⟩
  | insertUser _ _ _ uname' token' huname htoken _ =>
    refine ⟨[⟨w.db.users.next + gaps.users, uname', token', admin⟩].filter (·.admin), ?_, ?_⟩
    · rw [Relational.Serial.rows_push, List.filter_append]
      rfl
    · intro u hu
      obtain ⟨hu, hadmin⟩ := List.mem_filter.mp hu
      rw [List.mem_singleton] at hu
      subst hu
      exact hS hadmin _ huname htoken

/-- A call that adds at most the admins in `S`. -/
abbrev Adding {α : Type} (S : UserRow → Prop) (p : Routine α) (w : World b) : Prop :=
  p.Safe Op.Step World.Grows (fun _ w _ w' ↦ w.Adds S w') (fun _ _ ↦ True) (fun _ _ ↦ True) w

/-- Where there is an admin, `createUser` makes another one only if it is told to. -/
theorem createUser_adding {S : UserRow → Prop} {uname token : String} {admin : Bool}
    (hS : admin = true → ∀ u : UserRow, varchar b 50 uname = .ok u.uname →
      varchar b 50 token = .ok u.token → S u) {w : World b} (hw : w.Led) :
    Adding S (DBPostgres.createUser uname token admin) w := by
  refine Prog.Safe.perform_bind (fun _ _ _ _ h ↦ h.adds (by decide)) (fun w₁ hle₁ _ w₂ h₂ ↦ ?_)
    (fun _ _ _ _ _ _ _ ↦ trivial)
  have hw₂ : w₂.Led := hw.grows (trans_of World.Grows hle₁ h₂.grows)
  refine Prog.Safe.perform_bind (fun _ _ _ _ h ↦ h.adds (by decide))
    (fun w₃ hle₃ adminct _ hcount ↦ ?_) (fun _ _ _ _ _ _ _ ↦ trivial)
  have hne : adminct ≠ 0 := hcount.countAdmins_ne_zero_iff.mpr (hw₂.grows hle₃)
  rw [if_neg hne]
  refine Prog.Safe.perform_bind (fun _ _ _ _ h ↦ h.adds_insertUser hS) (fun _ _ _ _ _ ↦ ?_)
    (fun _ _ _ _ _ _ _ ↦ trivial)
  refine Prog.Safe.perform_bind (fun _ _ _ _ h ↦ h.adds nofun) (fun _ _ _ _ _ ↦ ?_)
    (fun _ _ _ _ _ _ _ ↦ trivial)
  exact fun _ _ ↦ trivial

theorem handle_adding (r : Request) {w : World b} (hw : w.Led) :
    Adding (r.Promotes b) r.handle w := by
  by_cases hr : r.target = some .users
  · cases r with
    | GenerateUser uuid uuid2 =>
      exact safe_caught ((createUser_adding nofun hw).bind fun _ _ _ _ _ ↦ trivial)
    | CreateUser request =>
      refine safe_caught ((createUser_adding (fun hadmin u huname htoken ↦ ?_) hw).bind
        fun _ _ _ _ _ ↦ trivial)
      exact ⟨hadmin, huname, htoken⟩
    | _ => cases hr
  · refine Prog.Safe.of_only (fun _ _ _ _ ↦ trivial) (fun o w _ w' ho _ h ↦ ?_)
      r.handle_only trivial
    exact ⟨h.adds (ho.target_ne hr), h.grows⟩

/-! ## One request -/

namespace Served.Handled

variable {s : Served b} {w w' : World b}

theorem adds (h : s.Handled w w') (hw : w.Led) :
    w.Adds (s.request.Promotes b) w' ∧
      ∀ e ∈ s.actions, w.Adds (s.request.Promotes b) e.before := by
  have hlog : ∀ e ∈ s.actions, e.before.Adds (s.request.Promotes b) e.after :=
    ((handle_adding s.request hw).run h.trace h.run).2
  obtain ⟨hle, hmid⟩ := h.run.le fun e he _ ↦ hlog e he
  exact ⟨hle, fun e he ↦ (hmid e he).1⟩

theorem banned_users_eq (h : s.Handled w w') (hw : w.Led)
    (hcreds : ∀ creds, s.request.credentials = some creds →
      ∀ u ∈ w.admins, (u.uname, u.token) ≠ creds) :
    w'.db.banned_users = w.db.banned_users := by
  have hwrites : ∀ e ∈ s.actions, e.op.target ≠ some .banned_users := by
    intro e he hto
    by_cases hr : s.request.target = some .banned_users
    swap
    · exact ((s.request.handle_only.trace h.trace).1 e he).target_ne hr hto
    obtain ⟨cmeta, request, hreq⟩ : ∃ cmeta request, s.request = .BanUser cmeta request := by
      cases hs : s.request with
      | BanUser cmeta request => exact ⟨cmeta, request, rfl⟩
      | _ => rw [hs] at hr; cases hr
    have htrace := h.trace
    rw [hreq] at htrace hcreds
    obtain ⟨creds, hsome, hgrants⟩ :=
      (((banUser_guarding cmeta request w).run htrace h.run).2 e he).writes hto
    -- the admin the gate let through was there from the start
    obtain ⟨new, hnew, hpromotes⟩ := (h.adds hw).2 e he
    have hnil : new = [] := by
      rw [hreq] at hpromotes
      exact List.eq_nil_iff_forall_not_mem.mpr hpromotes
    rw [hnil, List.append_nil] at hnew
    obtain ⟨u, hu, hpair⟩ := hgrants.mem_admins
    rw [hnew] at hu
    exact hcreds creds hsome u hu hpair
  have hkeep : ∀ e ∈ s.actions, Op.Step e.op e.before e.result e.after →
      e.before.db.banned_users = w.db.banned_users →
      e.after.db.banned_users = w.db.banned_users := by
    intro e he hstep hbefore
    have hframe : e.after.db.banned_users = e.before.db.banned_users :=
      hstep.frame .banned_users (hwrites e he)
    rw [hframe, hbefore]
  exact h.run.preserves (I := fun v ↦ v.db.banned_users = w.db.banned_users) hkeep rfl

end Served.Handled

/-! ## Whole histories -/

/-- In the history `ss` from `w`, a request that asked for this admin has registered it. -/
def Promoted (w : World b) (ss : List (Served b)) (u : UserRow) : Prop :=
  ∃ s v v', Serve.Passes w ss s v v' ∧ s.request.Promotes b u ∧ u ∉ v.db.users.rows ∧
    u ∈ v'.db.users.rows

theorem Promoted.cons {s : Served b} {w w₁ : World b} {ss : List (Served b)} {u : UserRow}
    (h : Promoted w₁ ss u) (hs : s.Handled w w₁) : Promoted w (s :: ss) u := by
  obtain ⟨t, v, v', hpasses, hu⟩ := h
  exact ⟨t, v, v', hpasses.cons hs, hu⟩

theorem Served.Handled.promoted {s : Served b} {w w₁ : World b} (hs : s.Handled w w₁) (hw : w.Led)
    (ss : List (Served b)) : w.Adds (Promoted w (s :: ss)) w₁ := by
  obtain ⟨new, hnew, hpromotes⟩ := (hs.adds hw).1
  refine ⟨new, hnew, fun u hu ↦ ?_⟩
  have hmem : u ∈ w₁.admins := by
    rw [hnew]
    exact List.mem_append_right _ hu
  refine ⟨s, w, w₁, ⟨[], ss, rfl, .nil w, hs⟩, hpromotes u hu, fun hold ↦ ?_,
    (List.mem_filter.mp hmem).1⟩
  -- rows do not repeat, so what is added was not there
  have hnodup : w₁.admins.Nodup := w₁.nodup_users.filter _
  rw [hnew, List.nodup_append] at hnodup
  exact hnodup.2.2 u (List.mem_filter.mpr ⟨hold, (List.mem_filter.mp hmem).2⟩) u hu rfl

theorem Serve.adds {w w' : World b} {ss : List (Served b)} (h : Serve w ss w') (hw : w.Led) :
    w.Adds (Promoted w ss) w' := by
  induction h with
  | nil w => exact refl_of (World.Adds _) w
  | @cons s w w₁ w' ss hs _ ih =>
    have hrest : w₁.Adds (Promoted w (s :: ss)) w' :=
      (ih (hw.grows hs.grows)).mono fun u hu ↦ hu.cons hs
    exact trans_of (World.Adds _) (hs.promoted hw ss) hrest

/-- Admins stay, so whoever is one when a request comes still is at the end. -/
theorem Serve.banned_users_eq {w w' : World b} {ss : List (Served b)} (h : Serve w ss w')
    (hw : w.Led)
    (hcreds : ∀ s ∈ ss, ∀ u ∈ w'.admins, s.request.credentials ≠ some (u.uname, u.token)) :
    w'.db.banned_users = w.db.banned_users := by
  induction h with
  | nil w => rfl
  | @cons s w w₁ w' ss hs h ih =>
    obtain ⟨hcreds, hcreds'⟩ := List.forall_mem_cons.mp hcreds
    have hw₁ : w₁.Led := hw.grows hs.grows
    have hstay : ∀ u ∈ w.admins, u ∈ w'.admins := by
      obtain ⟨new, hnew, _⟩ := (Serve.cons hs h).adds hw
      rw [hnew]
      exact fun u hu ↦ List.mem_append_left _ hu
    have hfirst : w₁.db.banned_users = w.db.banned_users := by
      refine hs.banned_users_eq hw fun creds hsome u hu hpair ↦ ?_
      rw [← hpair] at hsome
      exact hcreds u (hstay u hu) hsome
    rw [ih hw₁ hcreds', hfirst]

/-- **Escalation only by `CreateUser`.** Where there is an admin, the admins after any history of
requests are those before it and, behind them, users that a `CreateUser` request has registered as
the admins it asked for; and if no request is made in the name of an admin of either kind, the bans
are the same. -/
theorem escalation_only_by_createUser {w w' : World b} {ss : List (Served b)} (hw : w.Led)
    (h : Serve w ss w') :
    (∃ new, w'.admins = w.admins ++ new ∧ ∀ u ∈ new, Promoted w ss u) ∧
      ((∀ s ∈ ss, ∀ u ∈ w'.admins, s.request.credentials ≠ some (u.uname, u.token)) →
        w'.db.banned_users = w.db.banned_users) :=
  ⟨h.adds hw, h.banned_users_eq hw⟩

/-- Somebody is registered as an admin, somebody else asks for a name that is taken, and uses the
password they asked for. -/
private def intrusion : World .postgres × List (Served .postgres) × World .postgres :=
  let w := (serve (World.start .postgres 0) [.CreateUser ⟨"root", "pw", false⟩]).2
  (w, serve w [.CreateUser ⟨"eve", "eve", true⟩, .CreateUser ⟨"root", "guess", true⟩,
    .BanUser [("auth-uname", "root"), ("auth-token", "guess")] ⟨"eve", 1⟩])

theorem escalation_only_by_createUser_intrusion :
    (∃ new, intrusion.2.2.admins = intrusion.1.admins ++ new ∧
        ∀ u ∈ new, Promoted intrusion.1 intrusion.2.1 u) ∧
      intrusion.2.2.db.banned_users = intrusion.1.db.banned_users := by
  obtain ⟨hadmins, hbans⟩ := escalation_only_by_createUser
    (List.any_eq_true.mp (by decide) : intrusion.1.Led) (serve_sound _ _)
  exact ⟨hadmins, hbans (by decide)⟩

/-- Somebody registers as an admin and bans the admin who was there. -/
private def takeover : World .postgres × List (Served .postgres) × World .postgres :=
  let w := (serve (World.start .postgres 0) [.CreateUser ⟨"root", "pw", false⟩]).2
  (w, serve w [.CreateUser ⟨"eve", "eve", true⟩,
    .BanUser [("auth-uname", "eve"), ("auth-token", "eve")] ⟨"root", 1⟩])

/-- Nobody there carries the credentials of an admin of the start, and yet both the admins and the
bans have changed. -/
theorem exists_escalation :
    ¬∀ (w w' : World .postgres) (ss : List (Served .postgres)), w.Led → Serve w ss w' →
      (∀ s ∈ ss, ∀ u ∈ w.admins, ¬s.request.Carries u) →
        w'.admins = w.admins ∧ w'.db.banned_users = w.db.banned_users := by
  intro h
  obtain ⟨_, hbans⟩ := h takeover.1 takeover.2.2 takeover.2.1 (List.any_eq_true.mp (by decide))
    (serve_sound _ _) (by decide)
  exact absurd hbans (by decide)

end Wrongthink
