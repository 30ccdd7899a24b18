import Wrongthink.Backends.Steps

/-!
# Creating a row on either server

A creating call whose name fits its column, and whose other values Postgres would not refuse for a
new name, is accepted by both engines or by neither: what then decides is whether the name is taken,
and it is taken on both or on none. So both calls go on to their lookup, and find opposite rows; or
both raise (`Renaming.paired_steps`).
-/

namespace Wrongthink

open Concurrent Relational

variable {b : Backend}

/-! ## Calls that fit -/

theorem World.map_snd_entries (w : World b) :
    (w.entries .users).map Prod.snd = w.db.users.rows.map (·.uname) ∧
      (w.entries .channels).map Prod.snd = w.db.channels.rows.map (·.name) ∧
      (w.entries .communities).map Prod.snd = w.db.communities.rows.map (·.name) := by
  simp only [entries, List.map_map]
  exact ⟨rfl, rfl, rfl⟩

namespace Creation

theorem Fits.grows {q : Creation} {w w' : World b} (h : q.Fits w) (hw : w.Grows w') :
    q.Fits w' := by
  have husers : ∀ {i}, w.db.users.has i → w'.db.users.has i := by
    intro i hi
    obtain ⟨u, hu, hid⟩ := Serial.has_iff.mp hi
    exact Serial.has_iff.mpr ⟨u, hw.db.users.subset hu, hid⟩
  refine ⟨h.1, h.2.imp (fun hname ↦ ((hw.entries q.table).map _).subset hname) fun hrest ↦ ?_⟩
  cases q with
  | user uname token admin => exact hrest
  | channel name community_id admin_id anonymous =>
    intro hb
    obtain ⟨hcommunity, hadmin⟩ := hrest hb
    obtain ⟨c, hc, hid⟩ := Serial.has_iff.mp hcommunity
    exact ⟨Serial.has_iff.mpr ⟨c, hw.db.communities.subset hc, hid⟩, husers hadmin⟩
  | community name admin pub => exact fun hb ↦ husers (hrest hb)

theorem fits_sqlite (q : Creation) (w : World .sqlite) : q.Fits w := by
  refine ⟨rfl, .inr ?_⟩
  cases q with
  | user uname token admin => exact ⟨token, rfl⟩
  | channel name community_id admin_id anonymous => exact nofun
  | community name admin pub => exact nofun

/-- **A call that fits** is accepted if its name is not taken. -/
theorem isOk_insert_iff {q : Creation} {n : ℕ} {w w' : World b}
    {r : Except Exn (Op.sql (q.insert n)).Result} (h : Op.Step (.sql (q.insert n)) w r w')
    (hlinked : r ≠ .error .connectionFailure) (hfits : q.Fits w) :
    r.isOk ↔ q.name ∉ (w.entries q.table).map Prod.snd := by
  obtain ⟨husers, hchannels, hcommunities⟩ := w.map_snd_entries
  cases q with
  | user uname token admin =>
    rw [Creation.Fits, Creation.table, husers] at hfits
    rw [Creation.table, husers]
    exact h.insertUser_isOk_iff hlinked hfits.1 hfits.2.symm
  | channel name community_id admin_id anonymous =>
    rw [Creation.Fits, Creation.table, hchannels] at hfits
    rw [Creation.table, hchannels]
    exact h.insertChannel_isOk_iff hlinked hfits.1 fun hb ↦ hfits.2.symm.imp_left fun href ↦ href hb
  | community name admin pub =>
    rw [Creation.Fits, Creation.table, hcommunities] at hfits
    rw [Creation.table, hcommunities]
    exact h.insertCommunity_isOk_iff hlinked hfits.1
      fun hb ↦ hfits.2.symm.imp_left fun href ↦ href hb

end Creation

namespace Renaming

variable {ρ : Renaming} {w t v : World .postgres} {w' t' v' : World .sqlite} {q q' : Creation}

/-! ## The insert -/

/-- **The insert** is accepted by both engines or by neither. -/
theorem SameCall.insert {n : ℕ} {r : Except Exn (Op.sql (q.insert n)).Result}
    {r' : Except Exn (Op.sql (q'.insert n)).Result} (hcall : ρ.SameCall q q') (h : ρ.Mirrors w w')
    (hfits : q.Fits w) (hs : Fair v (.sql (q.insert n)) w r t)
    (hs' : Fair v' (.sql (q'.insert n)) w' r' t') (hmatches : ρ.Matches t t') :
    ρ.Mirrors t t' ∧ (((∃ x, r = .ok x) ∧ (∃ x', r' = .ok x') ∧
        q.name ∈ (t.entries q.table).map Prod.snd) ∨
      ((∃ e, r = .error e) ∧ ∃ e', r' = .error e')) := by
  have hok := Creation.isOk_insert_iff hs.step hs.linked hfits
  have hok' := Creation.isOk_insert_iff hs'.step hs'.linked (q'.fits_sqlite w')
  rw [hcall.taken_iff h, ← hok] at hok'
  -- taken on both servers or on none
  rcases r with e | x
  · rcases r' with e' | x'
    swap
    · cases hok'.mp rfl
    exact ⟨h.of_still hs.step hs'.step rfl hs.step.rows_eq_of_error hs'.step.rows_eq_of_error,
      .inr ⟨⟨e, rfl⟩, e', rfl⟩⟩
  rcases r' with e' | x'
  · cases hok'.mpr rfl
  have hentry : q.name ∈ (t.entries q.table).map Prod.snd := by
    obtain ⟨_, m, name, hentries, hname, _⟩ := (Creation.insert_eq hs.step).resolve_right (by simp)
    rw [hentries, Except.ok.inj (hfits.1.symm.trans hname)]
    simp
  refine ⟨?_, .inl ⟨⟨x, rfl⟩, ⟨x', rfl⟩, hentry⟩⟩
  have hstored := hfits.1
  cases hcall with
  | user uname token token' admin =>
    obtain ⟨_, u, hrows, huname, _, hadmin, _⟩ := hs.step.insertUser_eq.resolve_right (by simp)
    obtain ⟨_, u', hrows', huname', _, hadmin', _⟩ := hs'.step.insertUser_eq.resolve_right (by simp)
    refine h.of_insert (T := .users) hs.step hs'.step rfl rfl hrows hrows' hmatches fun hkey ↦
      ⟨hkey, ?_, hadmin'.trans hadmin.symm⟩
    have hname : u.uname = uname := Except.ok.inj (huname.symm.trans hstored)
    rw [← Except.ok.inj huname', hname]
  | channel name community_id admin_id anonymous =>
    obtain ⟨_, c, hrows, hname, hcommunity, hadmin, hanon, _⟩ :=
      hs.step.insertChannel_eq.resolve_right (by simp)
    obtain ⟨_, c', hrows', hname', hcommunity', hadmin', hanon', _⟩ :=
      hs'.step.insertChannel_eq.resolve_right (by simp)
    refine h.of_insert (T := .channels) hs.step hs'.step rfl rfl hrows hrows' hmatches fun hkey ↦
      ⟨hkey, ?_, ?_, ?_, hanon'.trans hanon.symm⟩
    · exact (Except.ok.inj hname').symm.trans (Except.ok.inj (hstored.symm.trans hname))
    · rw [hcommunity', hcommunity]
    · rw [hadmin', hadmin]
  | community name admin pub =>
    obtain ⟨_, c, hrows, hname, hadmin, hpub, _⟩ :=
      hs.step.insertCommunity_eq.resolve_right (by simp)
    obtain ⟨_, c', hrows', hname', hadmin', hpub', _⟩ :=
      hs'.step.insertCommunity_eq.resolve_right (by simp)
    refine h.of_insert (T := .communities) hs.step hs'.step rfl rfl hrows hrows' hmatches fun hkey ↦
      ⟨hkey, ?_, ?_, hpub'.trans hpub.symm⟩
    · exact (Except.ok.inj hname').symm.trans (Except.ok.inj (hstored.symm.trans hname))
    · rw [hadmin', hadmin]

/-! ## The call -/

theorem Mirrors.countAdmins (h : ρ.Mirrors w w') :
    w'.db.users.rows.countP (·.admin) = w.db.users.rows.countP (·.admin) := by
  have hadmin : w.db.users.rows.map (·.admin) = w'.db.users.rows.map (·.admin) :=
    map_eq_of_forall₂ (h.rows .users) fun _ _ hu ↦ hu.admin.symm
  have hcount : ∀ l : List UserRow, l.countP (·.admin) = (l.map (·.admin)).countP id := by
    intro l
    rw [List.countP_map]
    rfl
  rw [hcount, hcount, hadmin]

theorem SameCall.paired_prepare {α α' : Type} {Q : α → World .postgres → α' → World .sqlite → Prop}
    {f : ℕ → Routine α} {f' : ℕ → Routine α'} (hcall : ρ.SameCall q q') (h : ρ.Mirrors w w')
    (hrest : ∀ n t t', w.Grows t → ρ.Mirrors t t' →
      (f n).Paired (Fair v) (Fair v') Q ρ.Mirrors (f' n) t t') :
    (q.prepare >>= f).Paired (Fair v) (Fair v') Q ρ.Mirrors (q'.prepare >>= f') w w' := by
  have hsession : ∀ {β β' : Type} {Q : β → World .postgres → β' → World .sqlite → Prop}
      {g : Unit → Routine β} {g' : Unit → Routine β'}, (∀ t t', w.Grows t → ρ.Mirrors t t' →
        (g ()).Paired (Fair v) (Fair v') Q ρ.Mirrors (g' ()) t t') →
          (perform .session >>= g).Paired (Fair v) (Fair v') Q ρ.Mirrors (perform .session >>= g') w
            w' := by
    intro β β' Q g g' hg
    exact paired_still h rfl rfl rfl (fun _ ↦ ⟨_, rfl⟩) (fun _ ↦ ⟨_, rfl⟩)
      fun _ t _ t' hs _ hmirrors ↦ hg t t' hs.step.grows hmirrors
  cases hcall with
  | user uname token token' admin =>
    rw [Creation.prepare, Creation.prepare, Prog.bind_assoc, Prog.bind_assoc]
    refine hsession fun t t' hgrows hmirrors ↦ ?_
    refine paired_still hmirrors rfl rfl rfl (fun _ ↦ ⟨_, rfl⟩) (fun _ ↦ ⟨_, rfl⟩)
      fun n t₁ n' t₁' hs hs' hmirrors₁ ↦ ?_
    have hn : n = t.db.users.rows.countP (·.admin) := by
      obtain ⟨d, hn, _⟩ := hs.step.ok
      exact Except.ok.inj hn
    have hn' : n' = t'.db.users.rows.countP (·.admin) := by
      obtain ⟨d, hn, _⟩ := hs'.step.ok
      exact Except.ok.inj hn
    rw [hn', hmirrors.countAdmins, ← hn]
    exact hrest n t₁ t₁' (trans_of World.Grows hgrows hs.step.grows) hmirrors₁
  | channel name community_id admin_id anonymous =>
    rw [Creation.prepare, Creation.prepare, Prog.bind_assoc, Prog.bind_assoc]
    exact hsession fun t t' hgrows hmirrors ↦ hrest 0 t t' hgrows hmirrors
  | community name admin pub =>
    rw [Creation.prepare, Creation.prepare, Prog.bind_assoc, Prog.bind_assoc]
    exact hsession fun t t' hgrows hmirrors ↦ hrest 0 t t' hgrows hmirrors

theorem SameCall.paired_find {α α' : Type} {Q : α → World .postgres → α' → World .sqlite → Prop}
    {f : Option ℤ → Routine α} {f' : Option ℤ → Routine α'} (hcall : ρ.SameCall q q')
    (h : ρ.Mirrors w w')
    (hrest : ∀ t t', ρ.Mirrors t t' → (f (q.lookup w)).Paired (Fair v) (Fair v') Q ρ.Mirrors
      (f' ((q.lookup w).map (ρ.key q.table))) t t') :
    (q.find >>= f).Paired (Fair v) (Fair v') Q ρ.Mirrors (q'.find >>= f') w w' := by
  rw [← hcall.lookup h] at hrest
  cases hcall with
  | user uname token token' admin =>
    refine paired_still h rfl rfl rfl (fun _ ↦ ⟨_, rfl⟩) (fun _ ↦ ⟨_, rfl⟩)
      fun uid t uid' t' hs hs' hmirrors ↦ ?_
    rw [Creation.lookup_user hs.step, Creation.lookup_user hs'.step]
    exact hrest t t' hmirrors
  | channel name community_id admin_id anonymous =>
    refine paired_still h rfl rfl rfl (fun _ ↦ ⟨_, rfl⟩) (fun _ ↦ ⟨_, rfl⟩)
      fun id t id' t' hs hs' hmirrors ↦ ?_
    rw [Creation.lookup_channel hs.step, Creation.lookup_channel hs'.step]
    exact hrest t t' hmirrors
  | community name admin pub =>
    refine paired_still h rfl rfl rfl (fun _ ↦ ⟨_, rfl⟩) (fun _ ↦ ⟨_, rfl⟩)
      fun id t id' t' hs hs' hmirrors ↦ ?_
    rw [Creation.lookup_community hs.step, Creation.lookup_community hs'.step]
    exact hrest t t' hmirrors

/-- **The call** goes the same way on both servers: to opposite keys, or to an exception. -/
theorem SameCall.paired_steps {α α' : Type} {Q : α → World .postgres → α' → World .sqlite → Prop}
    {k : ℕ → Option ℤ → Routine α} {k' : ℕ → Option ℤ → Routine α'} (hcall : ρ.SameCall q q')
    (h : ρ.Mirrors w w') (hfits : q.Fits w) (hmatches : ρ.Matches v v')
    (hrest : ∀ n id t t', ρ.Mirrors t t' → (k n (some id)).Paired (Fair v) (Fair v') Q ρ.Mirrors
      (k' n (some (ρ.key q.table id))) t t') :
    (q.steps k).Paired (Fair v) (Fair v') Q ρ.Mirrors (q'.steps k') w w' := by
  refine hcall.paired_prepare h fun n t t' hgrows hmirrors ↦ ?_
  refine Prog.Paired.perform_bind fun r t₁ r' t₁' hs hs' ↦ ?_
  obtain ⟨hmirrors₁, ⟨⟨x, rfl⟩, ⟨x', rfl⟩, hentry⟩ | ⟨⟨e, rfl⟩, e', rfl⟩⟩ :=
    hcall.insert hmirrors (hfits.grows hgrows) hs hs' (hmatches.of_grows hs.grows hs'.grows)
  swap
  · exact .inr ⟨⟨e, e', rfl, rfl⟩, hmirrors₁⟩
  refine .inl ⟨x, x', rfl, rfl, ?_⟩
  -- the row is there, so the lookup finds a key
  obtain ⟨⟨id, name⟩, hmem, hname⟩ := List.mem_map.mp hentry
  obtain rfl : name = q.name := hname
  refine hcall.paired_find hmirrors₁ fun t₂ t₂' hmirrors₂ ↦ ?_
  rw [Creation.lookup_eq_some hmem]
  exact hrest n id t₂ t₂' hmirrors₂

end Renaming

end Wrongthink
