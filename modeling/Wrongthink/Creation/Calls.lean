import Wrongthink.Service.Frame
import Wrongthink.Service.Inserts

/-!
# Creating a row

`createUser`, `createChannel` and `createCommunity` go the same way: they insert a row, and then
look its key up by the name they were given. What they have in common is `Creation.steps`, and what
becomes of it is said by two lemmas: `trace_steps` for the order of the actions, and `trace_find`
for what the lookup answers.

A name that is stored may differ from the one that was given: Postgres cuts blanks off at the end of
a name that is too long for its column.
-/

namespace Wrongthink

open Concurrent

variable {b : Backend}

/-! ## Keys and names -/

namespace World

/-- The key and the name of each row, for the tables that have both. -/
def entries (w : World b) : Table → List (ℤ × String)
  | .users => w.db.users.rows.map fun u ↦ (u.user_id, u.uname)
  | .communities => w.db.communities.rows.map fun c ↦ (c.community_id, c.name)
  | .channels => w.db.channels.rows.map fun c ↦ (c.channel_id, c.name)
  | _ => []

theorem nodup_keys (w : World b) (T : Table) : ((w.entries T).map Prod.fst).Nodup := by
  cases T with
  | users =>
    rw [entries, List.map_map]
    exact w.db.users.nodup_keys
  | communities =>
    rw [entries, List.map_map]
    exact w.db.communities.nodup_keys
  | channels =>
    rw [entries, List.map_map]
    exact w.db.channels.nodup_keys
  | _ => exact List.nodup_nil

theorem nodup_names (w : World b) (T : Table) : ((w.entries T).map Prod.snd).Nodup := by
  cases T with
  | users =>
    rw [entries, List.map_map]
    exact w.db.valid.users_uname
  | communities =>
    rw [entries, List.map_map]
    exact w.db.valid.communities_name
  | channels =>
    rw [entries, List.map_map]
    exact w.db.valid.channels_name
  | _ => exact List.nodup_nil

theorem Grows.entries {w w' : World b} (h : w.Grows w') (T : Table) :
    w.entries T <+: w'.entries T := by
  cases T with
  | users => exact h.db.users.map _
  | communities => exact h.db.communities.map _
  | channels => exact h.db.channels.map _
  | _ => exact List.prefix_refl _

end World

/-- The opening of a session, or a query. -/
def Op.Reads (o : Op) : Prop := o.store = true ∧ o.target = none

/-- The lookup of a key by a name. -/
def Op.looksUp : Op → Bool
  | sql (.selectUserId _) | sql (.selectChannelId _) | sql (.selectCommunityId _) => true
  | _ => false

theorem Op.reads_of_looksUp {o : Op} (h : o.looksUp) : o.Reads := by
  cases o with
  | sql q =>
    cases q with
    | selectUserId _ | selectChannelId _ | selectCommunityId _ => exact ⟨rfl, rfl⟩
    | _ => cases h
  | _ => cases h

theorem Op.Step.rows_eq_of_error {o : Op} {w w' : World b} {e : Exn}
    (h : Op.Step o w (.error e) w') (T : Table) : w'.db.rows T = w.db.rows T := by
  by_cases ho : o.target = some T
  swap
  · exact h.frame T ho
  cases o with
  | sql q =>
    obtain ⟨gaps, heffect⟩ := h.effect_now
    rw [← w.db.rows_skip gaps T]
    generalize w'.db.toTables = t' at *
    cases heffect with
    | same _ _ _ => rfl
  | _ => cases ho

/-! ## The calls -/

/-- A call that creates a row. -/
inductive Creation where
  | user (uname token : String) (admin : Bool)
  | channel (name : String) (community_id admin_id : ℤ) (anonymous : Bool)
  | community (name : String) (admin : ℤ) (pub : Bool)

namespace Creation

def table : Creation → Table
  | user _ _ _ => .users
  | channel _ _ _ _ => .channels
  | community _ _ _ => .communities

def name : Creation → String
  | user uname _ _ => uname
  | channel name _ _ _ | community name _ _ => name

/-- The width of the column of the names. -/
def width : Creation → ℕ
  | user _ _ _ => 50
  | channel _ _ _ _ | community _ _ _ => 100

/-- The call of the database layer, for its id. -/
def call : Creation → Routine ℤ
  | user uname token admin => do
    let (uid, _) ← DBPostgres.createUser uname token admin
    return uid
  | channel name community_id admin_id anonymous =>
    DBPostgres.createChannel name community_id admin_id anonymous
  | community name admin pub => DBPostgres.createCommunity name admin pub

/-- What comes before the insert; the number of the admins, for a user. -/
def prepare : Creation → Routine ℕ
  | user _ _ _ => do
    perform .session
    sql .countAdmins
  | channel _ _ _ _ | community _ _ _ => do
    perform .session
    return 0

def insert : Creation → ℕ → Statement
  | user uname token admin, adminct => .insertUser uname token (if adminct = 0 then true else admin)
  | channel name community_id admin_id anonymous, _ =>
    .insertChannel name community_id admin_id anonymous
  | community name admin pub, _ => .insertCommunity name admin pub

/-- The lookup of the new row. -/
def find : Creation → Routine (Option ℤ)
  | user uname _ _ => sql (.selectUserId uname)
  | channel name _ _ _ => sql (.selectChannelId name)
  | community name _ _ => sql (.selectCommunityId name)

variable {α : Type}

/-- What the three calls have in common, with an end `k` of their own. -/
def steps (q : Creation) (k : ℕ → Option ℤ → Routine α) : Routine α := do
  let adminct ← q.prepare
  let _ ← perform (.sql (q.insert adminct))
  let id ← q.find
  k adminct id

theorem steps_bind {β : Type} (q : Creation) (k : ℕ → Option ℤ → Routine α) (f : α → Routine β) :
    (q.steps k >>= f) = q.steps fun adminct id ↦ k adminct id >>= f := by
  simp only [steps, Prog.bind_assoc]

end Creation

namespace DBPostgres

theorem createUser_eq (uname token : String) (admin : Bool) :
    createUser uname token admin = (Creation.user uname token admin).steps fun adminct uid ↦
      return (uid.getD 0, if adminct = 0 then true else admin) := by
  rw [Creation.steps, Creation.prepare, Prog.bind_assoc]
  rfl

theorem createChannel_eq (name : String) (community admin_id : ℤ) (anonymous : Bool) :
    createChannel name community admin_id anonymous =
      (Creation.channel name community admin_id anonymous).steps fun _ channel_id ↦
        return channel_id.getD 0 := by
  rw [Creation.steps, Creation.prepare, Prog.bind_assoc]
  rfl

theorem createCommunity_eq (name : String) (admin : ℤ) (pub : Bool) :
    createCommunity name admin pub =
      (Creation.community name admin pub).steps fun _ community_id ↦
        match community_id with
        | some id => return id
        | none => do
          perform .undefined
          return 0 := by
  rw [Creation.steps, Creation.prepare, Prog.bind_assoc, createCommunity]
  congr 1
  funext _
  simp only [Prog.pure_eq, Prog.done_bind]
  congr 1
  funext _
  congr 1
  funext id
  cases id <;> rfl

end DBPostgres

namespace Creation

variable {α : Type} {q : Creation} {k : ℕ → Option ℤ → Routine α} {tr : List (Action b)}
  {p' : Routine α}

/-! ## The end of a call -/

/-- What a call makes of the lookup. -/
def finish : Creation → Option ℤ → Routine ℤ
  | user _ _ _, uid => return uid.getD 0
  | channel _ _ _ _, channel_id => return channel_id.getD 0
  | community _ _ _, community_id =>
    match community_id with
    | some id => return id
    | none => do
      perform .undefined
      return 0

theorem call_eq (q : Creation) : q.call = q.steps fun _ id ↦ q.finish id := by
  cases q with
  | user uname token admin =>
    rw [call, DBPostgres.createUser_eq, steps_bind]
    rfl
  | channel name community_id admin_id anonymous => exact DBPostgres.createChannel_eq ..
  | community name admin pub => exact DBPostgres.createCommunity_eq ..

theorem finish_some (q : Creation) (n : ℤ) : q.finish (some n) = .done n := by
  cases q <;> rfl

theorem finish_reads (q : Creation) (id : Option ℤ) :
    (q.finish id).Only fun o ↦ o.target = none := by
  cases q with
  | community name admin pub =>
    cases id with
    | some id => trivial
    | none => exact (Prog.only_perform_bind _ _ _).mpr ⟨rfl, fun _ ↦ trivial⟩
  | _ => trivial

/-! ## The insert -/

theorem target_insert (q : Creation) (adminct : ℕ) : (q.insert adminct).target = some q.table := by
  cases q <;> rfl

/-- The insert is accepted, and there is a new row with a new name, or it is rejected. -/
theorem insert_eq {adminct : ℕ} {w w' : World b} {r : Except Exn (q.insert adminct).Result}
    (h : Op.Step (.sql (q.insert adminct)) w r w') :
    ((∃ v, r = .ok v) ∧ ∃ n name, w'.entries q.table = w.entries q.table ++ [(n, name)] ∧
        varchar b q.width q.name = .ok name ∧ name ∉ (w.entries q.table).map Prod.snd) ∨
      ((∃ e, r = .error e) ∧ ∀ T, w'.db.rows T = w.db.rows T) := by
  rcases r with e | v
  · exact .inr ⟨⟨e, rfl⟩, h.rows_eq_of_error⟩
  refine .inl ⟨⟨v, rfl⟩, ?_⟩
  cases q with
  | user uname token admin =>
    obtain ⟨_, u, hrows, hname, _, _, hnew⟩ := h.insertUser_eq.resolve_right (by simp)
    refine ⟨u.user_id, u.uname, ?_, hname, ?_⟩
    · rw [table, World.entries, World.entries, hrows, List.map_append]
      rfl
    · rw [table, World.entries, List.map_map]
      exact hnew
  | channel name community_id admin_id anonymous =>
    obtain ⟨_, c, hrows, hname, _, _, _, hnew⟩ := h.insertChannel_eq.resolve_right (by simp)
    refine ⟨c.channel_id, c.name, ?_, hname, ?_⟩
    · rw [table, World.entries, World.entries, hrows, List.map_append]
      rfl
    · rw [table, World.entries, List.map_map]
      exact hnew
  | community name admin pub =>
    obtain ⟨_, c, hrows, hname, _, _, hnew⟩ := h.insertCommunity_eq.resolve_right (by simp)
    refine ⟨c.community_id, c.name, ?_, hname, ?_⟩
    · rw [table, World.entries, World.entries, hrows, List.map_append]
      rfl
    · rw [table, World.entries, List.map_map]
      exact hnew

/-! ## The order of the actions -/

/-- No action has changed a table. -/
def Idle (tr : List (Action b)) : Prop :=
  ∀ e ∈ tr, e.op.target = none ∨ e.result.isOk = false

theorem rows_of_idle {o : Op} {w w' : World b} {r : Except Exn o.Result} (h : Op.Step o w r w')
    (hidle : o.target = none ∨ r.isOk = false) (T : Table) : w'.db.rows T = w.db.rows T := by
  rcases hidle with hnone | herror
  · exact h.frame T (by rw [hnone]; simp)
  · cases r with
    | ok v => cases herror
    | error e => exact h.rows_eq_of_error T

theorem not_idle_of_mem {e : Action b} {T : Table} (he : e ∈ tr) (htarget : e.op.target = some T)
    (hok : e.result.isOk) : ¬Idle tr := by
  intro hidle
  rcases hidle e he with hnone | herror
  · rw [hnone] at htarget
    cases htarget
  · rw [hok] at herror
    cases herror

theorem rows_of_idle_run {w w' : World b} (h : Run Op.Step w tr w') (hidle : Idle tr) (T : Table) :
    w'.db.rows T = w.db.rows T :=
  h.preserves (I := fun v ↦ v.db.rows T = w.db.rows T)
    (fun e he hs hbefore ↦ (rows_of_idle hs (hidle e he) T).trans hbefore) rfl

theorem prepare_reads (q : Creation) : q.prepare.Only Op.Reads := by
  cases q <;> simp [prepare, Op.Reads, Op.store, Op.target, Statement.target]

theorem find_reads (q : Creation) : q.find.Only Op.Reads := by
  cases q <;> simp [find, Op.Reads, Op.store, Op.target, Statement.target]

/-- **A creation** has changed nothing yet, and is not finished; or its insert has been accepted,
and the lookup follows. -/
theorem trace_steps (h : (q.steps k).Trace tr p') :
    (Idle tr ∧ ∀ a, p' ≠ .done a) ∨ ∃ adminct tr₁ w v w' tr₂,
      tr = tr₁ ++ ⟨w, .sql (q.insert adminct), .ok v, w'⟩ :: tr₂ ∧
        q.prepare.Trace tr₁ (.done adminct) ∧ (q.find >>= k adminct).Trace tr₂ p' := by
  have hreads : ∀ {tr₁ : List (Action b)} {p'}, q.prepare.Trace tr₁ p' → Idle tr₁ :=
    fun htr e he ↦ .inl ((q.prepare_reads.trace htr).1 e he).2
  rcases h.of_around with
    ⟨⟨p, hp⟩, hne⟩ | ⟨adminct, tr₁, w, e, w', rfl, h₁, rfl⟩ |
    ⟨adminct, tr₁, w, v, w', tr₂, rfl, h₁, h₂⟩
  · exact .inl ⟨hreads hp, hne⟩
  · refine .inl ⟨fun f hf ↦ ?_, by simp⟩
    rcases List.mem_append.mp hf with hf | hf
    · exact hreads h₁ f hf
    · rw [List.mem_singleton.mp hf]
      exact .inr rfl
  · exact .inr ⟨adminct, tr₁, w, v, w', tr₂, rfl, h₁, h₂⟩

/-- The key of the row of the name, if there is one. -/
def lookup (q : Creation) (w : World b) : Option ℤ :=
  ((w.entries q.table).find? fun x ↦ x.2 = q.name).map Prod.fst

theorem lookup_eq_some {w : World b} {n : ℤ} (h : (n, q.name) ∈ w.entries q.table) :
    q.lookup w = some n := by
  have hfind : ((w.entries q.table).find? fun x ↦ x.2 = q.name) = some (n, q.name) :=
    (Relational.find?_eq_some_iff (w.nodup_names q.table)).mpr ⟨h, rfl⟩
  rw [lookup, hfind]
  rfl

/-- A lookup has answered, from the state it has found; or it has not, and nothing is finished. -/
private theorem trace_lookup {o : Op} (ho : o.looksUp) {g : World b → o.Result}
    (hg : ∀ {w w' : World b} {v}, Op.Step o w (.ok v) w' → v = g w) {f : o.Result → Routine α}
    (hstep : ∀ e ∈ tr, Op.Step e.op e.before e.result e.after) (h : (perform o >>= f).Trace tr p') :
    ((∀ e ∈ tr, e.result.isOk = false) ∧ ∀ a, p' ≠ .done a) ∨ ∃ e tr', tr = e :: tr' ∧
      (e.op.looksUp ∧ e.result.isOk) ∧ (f (g e.before)).Trace tr' p' := by
  rcases Prog.trace_perform_bind_iff.mp h with
    ⟨rfl, rfl⟩ | ⟨w, v, w', tr', rfl, hrest⟩ | ⟨w, e, w', rfl, rfl⟩
  · exact .inl ⟨by simp, Prog.perform_bind_ne_done _ _⟩
  · rw [hg (hstep _ List.mem_cons_self)] at hrest
    exact .inr ⟨_, tr', rfl, ⟨ho, rfl⟩, hrest⟩
  · exact .inl ⟨by simp [Except.isOk, Except.toBool], by simp⟩

theorem lookup_user {uname token : String} {admin : Bool} {w w' : World b} {uid : Option ℤ}
    (h : Op.Step (.sql (.selectUserId uname)) w (.ok uid) w') :
    uid = (user uname token admin).lookup w := by
  obtain ⟨d, huid, _⟩ := h.ok
  rw [lookup, table, World.entries, List.find?_map, Option.map_map]
  exact Except.ok.inj huid

theorem lookup_channel {name : String} {community_id admin_id : ℤ} {anonymous : Bool}
    {w w' : World b} {id : Option ℤ} (h : Op.Step (.sql (.selectChannelId name)) w (.ok id) w') :
    id = (channel name community_id admin_id anonymous).lookup w := by
  obtain ⟨d, hid, _⟩ := h.ok
  rw [lookup, table, World.entries, List.find?_map, Option.map_map]
  exact Except.ok.inj hid

theorem lookup_community {name : String} {admin : ℤ} {pub : Bool} {w w' : World b} {id : Option ℤ}
    (h : Op.Step (.sql (.selectCommunityId name)) w (.ok id) w') :
    id = (community name admin pub).lookup w := by
  obtain ⟨d, hid, _⟩ := h.ok
  rw [lookup, table, World.entries, List.find?_map, Option.map_map]
  exact Except.ok.inj hid

/-- **The lookup** answers with the row of the name. -/
theorem trace_find {f : Option ℤ → Routine α}
    (hstep : ∀ e ∈ tr, Op.Step e.op e.before e.result e.after) (h : (q.find >>= f).Trace tr p') :
    ((∀ e ∈ tr, e.result.isOk = false) ∧ ∀ a, p' ≠ .done a) ∨ ∃ e tr', tr = e :: tr' ∧
      (e.op.looksUp ∧ e.result.isOk) ∧
      (f (q.lookup e.before)).Trace tr' p' := by
  cases q with
  | user uname token admin =>
    exact trace_lookup (g := (user uname token admin).lookup) rfl lookup_user hstep h
  | channel name community_id admin_id anonymous =>
    exact trace_lookup (g := (channel name community_id admin_id anonymous).lookup) rfl
      lookup_channel hstep h
  | community name admin pub =>
    exact trace_lookup (g := (community name admin pub).lookup) rfl lookup_community hstep h

end Creation

end Wrongthink
