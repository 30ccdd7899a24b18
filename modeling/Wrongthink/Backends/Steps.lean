import Wrongthink.Backends.Renaming
import Wrongthink.Concurrent.Paired

/-!
# One action on either server

Every handler performs the same actions on both servers, with the ids in them renamed. An action
that changes no table keeps mirrored states mirrored (`Renaming.Mirrors.of_still`), and so does an
insert that both engines accept, since the new keys stand opposite (`Renaming.Mirrors.of_insert`).
What the queries answer corresponds as well.
-/

namespace Wrongthink

open Concurrent Relational

variable {b : Backend}

/-- A step that reaches the engine, in a history that ends in `v`; and if a message is stored, the
clock fits the column of its date. -/
structure Fair (v : World b) (o : Op) (w : World b) (r : Except Exn o.Result) (w' : World b) :
    Prop where
  step : Op.Step o w r w'
  linked : r ≠ .error .connectionFailure
  grows : w'.Grows v
  timely : o.target = some .message → int4 b w'.now = .ok w'.now

/-- The channel that an action makes an entry for, if there is none. -/
def Op.makes : Op → Option ℤ
  | emplace id _ | index id => some id
  | _ => none

theorem Op.Step.isSome_channelMap {o : Op} {w w' : World b} {r : Except Exn o.Result}
    (h : Op.Step o w r w') (id : ℤ) :
    (w'.channelMap id).isSome = ((w.channelMap id).isSome || decide (o.makes = some id)) := by
  obtain ⟨d, ⟨_, rfl⟩ | ⟨hstore, _, rfl⟩⟩ := h.cases
  · cases o with
    | emplace id' name | index id' =>
      by_cases hid : id = id'
      · subst hid
        simp [Op.exec, Op.makes]
      · simp [Op.exec, Op.makes, World.channelMap_insertNew_of_ne _ hid, Ne.symm hid]
    | push id' _ | notifyAll id' | wait id' _ | wake id' _ =>
      by_cases hid : id = id'
      · subst hid
        simp [Op.exec, Op.makes]
      · simp [Op.exec, Op.makes, World.channelMap_modify_of_ne _ hid]
    | _ => simp [Op.exec, Op.makes]
  · cases o with
    | session | sql q => simp [Op.makes]
    | _ => cases hstore

namespace Renaming

variable {ρ : Renaming} {w t v : World .postgres} {w' t' v' : World .sqlite} {o o' : Op}
  {r : Except Exn o.Result} {r' : Except Exn o'.Result}

theorem isSome_channelMap (h : ρ.Mirrors w w') (hs : Op.Step o w r t) (hs' : Op.Step o' w' r' t')
    (hmakes : o'.makes = o.makes.map ρ.channel) (id : ℤ) :
    (t'.channelMap (ρ.channel id)).isSome = (t.channelMap id).isSome := by
  have hiff : o'.makes = some (ρ.channel id) ↔ o.makes = some id := by
    rw [hmakes, Option.map_eq_some_iff]
    constructor
    · rintro ⟨id', hid', heq⟩
      rw [hid', ρ.channel.injective heq]
    · intro hid
      exact ⟨id, hid, rfl⟩
  rw [hs.isSome_channelMap, hs'.isSome_channelMap, h.channelMap, decide_eq_decide.mpr hiff]

theorem Mirrors.of_still (h : ρ.Mirrors w w') (hs : Op.Step o w r t) (hs' : Op.Step o' w' r' t')
    (hmakes : o'.makes = o.makes.map ρ.channel) (hrows : ∀ T, t.db.rows T = w.db.rows T)
    (hrows' : ∀ T, t'.db.rows T = w'.db.rows T) : ρ.Mirrors t t' := by
  refine ⟨fun T ↦ ?_, isSome_channelMap h hs hs' hmakes⟩
  rw [hrows, hrows']
  exact h.rows T

theorem Mirrors.of_insert {T : Table} {row row' : T.Row} (h : ρ.Mirrors w w')
    (hs : Op.Step o w r t) (hs' : Op.Step o' w' r' t') (ho : o.target = some T)
    (ho' : o'.target = some T) (hrows : t.db.rows T = w.db.rows T ++ [row])
    (hrows' : t'.db.rows T = w'.db.rows T ++ [row']) (hmatches : ρ.Matches t t')
    (hrow : ρ.Key T row row' → ρ.Row T row row') : ρ.Mirrors t t' := by
  have hmakes : ∀ {o : Op}, o.target = some T → o.makes = none := by
    intro o ho
    cases o with
    | sql q => rfl
    | _ => cases ho
  refine ⟨fun T' ↦ ?_, isSome_channelMap h hs hs' (by rw [hmakes ho, hmakes ho']; rfl)⟩
  by_cases hT : T' = T
  · subst hT
    have hkey : ρ.Key T' row row' := by
      refine hmatches T' (row, row') ?_
      rw [hrows, hrows']
      exact mem_zip_append_singleton (h.rows T').length_eq row row'
    rw [hrows, hrows']
    exact List.rel_append (h.rows T') (.cons (hrow hkey) .nil)
  · rw [hs.frame T' (by rw [ho]; simpa using Ne.symm hT),
      hs'.frame T' (by rw [ho']; simpa using Ne.symm hT)]
    exact h.rows T'

theorem paired_still {α α' : Type} {Q : α → World .postgres → α' → World .sqlite → Prop}
    {f : o.Result → Routine α} {f' : o'.Result → Routine α'} (h : ρ.Mirrors w w')
    (ho : o.target = none) (ho' : o'.target = none) (hmakes : o'.makes = o.makes.map ρ.channel)
    (hok : ∀ w : World .postgres, ∃ x, (o.exec w).1 = .ok x)
    (hok' : ∀ w : World .sqlite, ∃ x, (o'.exec w).1 = .ok x)
    (hrest : ∀ x t x' t', Fair v o w (.ok x) t → Fair v' o' w' (.ok x') t' → ρ.Mirrors t t' →
      (f x).Paired (Fair v) (Fair v') Q ρ.Mirrors (f' x') t t') :
    (perform o >>= f).Paired (Fair v) (Fair v') Q ρ.Mirrors (perform o' >>= f') w w' := by
  refine Prog.Paired.perform_bind fun r t r' t' hs hs' ↦ .inl ?_
  have hanswer : ∀ {b : Backend} {o : Op} {w t v : World b} {r : Except Exn o.Result},
      Fair v o w r t → (∀ w : World b, ∃ x, (o.exec w).1 = .ok x) → ∃ x, r = .ok x := by
    intro b o w t v r hs hok
    cases r with
    | ok x => exact ⟨x, rfl⟩
    | error e => exact absurd (congrArg Except.error (hs.step.error_eq hok)) hs.linked
  obtain ⟨x, rfl⟩ := hanswer hs hok
  obtain ⟨x', rfl⟩ := hanswer hs' hok'
  have hmirrors : ρ.Mirrors t t' := h.of_still hs.step hs'.step hmakes
    (fun T ↦ hs.step.frame T (by rw [ho]; simp)) fun T ↦ hs'.step.frame T (by rw [ho']; simp)
  exact ⟨x, x', rfl, rfl, hrest x t x' t' hs hs' hmirrors⟩

/-! ## Keys and names -/

variable (ρ)

/-- The renaming of the keys of a table. -/
def key : Table → ℤ → ℤ
  | .users => ρ.user
  | .communities => ρ.community
  | .channels => ρ.channel
  | _ => id

/-- The renaming of the names in a table. -/
def name : Table → String → String
  | .users => ρ.uname
  | _ => id

theorem name_injective (T : Table) : Function.Injective (ρ.name T) := by
  cases T with
  | users => exact ρ.uname.injective
  | _ => exact Function.injective_id

variable {ρ}

theorem Mirrors.entries (h : ρ.Mirrors w w') (T : Table) :
    w'.entries T = (w.entries T).map fun x ↦ (ρ.key T x.1, ρ.name T x.2) := by
  cases T with
  | users =>
    rw [World.entries, World.entries, List.map_map]
    exact (map_eq_of_forall₂ (h.rows .users) fun u u' hu ↦ by
      rw [hu.user_id, hu.uname]
      rfl).symm
  | communities =>
    rw [World.entries, World.entries, List.map_map]
    exact (map_eq_of_forall₂ (h.rows .communities) fun c c' hc ↦ by
      rw [hc.community_id, hc.name]
      rfl).symm
  | channels =>
    rw [World.entries, World.entries, List.map_map]
    exact (map_eq_of_forall₂ (h.rows .channels) fun c c' hc ↦ by
      rw [hc.channel_id, hc.name]
      rfl).symm
  | _ => rfl

variable (ρ)

/-- The same call to the two servers; the tokens may differ. -/
inductive SameCall : Creation → Creation → Prop where
  | user (uname token token' admin) :
      SameCall (.user uname token admin) (.user (ρ.uname uname) token' admin)
  | channel (name community_id admin_id anonymous) :
      SameCall (.channel name community_id admin_id anonymous)
        (.channel name (ρ.community community_id) (ρ.user admin_id) anonymous)
  | community (name admin pub) :
      SameCall (.community name admin pub) (.community name (ρ.user admin) pub)

variable {ρ} {q q' : Creation}

theorem SameCall.table (h : ρ.SameCall q q') : q'.table = q.table := by
  cases h <;> rfl

theorem SameCall.name (h : ρ.SameCall q q') : q'.name = ρ.name q.table q.name := by
  cases h <;> rfl

theorem SameCall.taken_iff (hcall : ρ.SameCall q q') (h : ρ.Mirrors w w') :
    q'.name ∈ (w'.entries q'.table).map Prod.snd ↔ q.name ∈ (w.entries q.table).map Prod.snd := by
  have hmap :
      ((w.entries q.table).map fun x ↦ (ρ.key q.table x.1, ρ.name q.table x.2)).map Prod.snd =
      ((w.entries q.table).map Prod.snd).map (ρ.name q.table) := by
    rw [List.map_map, List.map_map]
    rfl
  rw [hcall.table, hcall.name, h.entries, hmap]
  exact List.mem_map_of_injective (ρ.name_injective q.table)

theorem SameCall.lookup (hcall : ρ.SameCall q q') (h : ρ.Mirrors w w') :
    q'.lookup w' = (q.lookup w).map (ρ.key q.table) := by
  have hname : ((fun x : ℤ × String ↦ decide (x.2 = ρ.name q.table q.name)) ∘
      fun x : ℤ × String ↦ (ρ.key q.table x.1, ρ.name q.table x.2)) =
        fun x ↦ decide (x.2 = q.name) := by
    funext x
    exact decide_eq_decide.mpr (ρ.name_injective q.table).eq_iff
  rw [Creation.lookup, Creation.lookup, hcall.table, hcall.name, h.entries, List.find?_map, hname,
    Option.map_map, Option.map_map]
  rfl

end Renaming

end Wrongthink
