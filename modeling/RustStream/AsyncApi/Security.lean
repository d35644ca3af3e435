import RustStream.AsyncApi.Build

/-!
# Security schemes

All the schemes of all the servers go into one map of components. The first scheme of a server goes under the server's
name and each later one under the name with a dash and its index, and the server refers to them by these keys.

Two things can go wrong with that, for names that may be anything. A key is not the server's alone: the second scheme
of `a` and the first of `a-1` have one key, the later one overwrites the earlier and both servers refer to it. And a
reference is read as a JSON pointer, in which a name with a slash, a tilde or a percent sign does not stand for itself.
These are the only two. That the second is one takes an argument, since a reference that is misread may still be read
as some component: what it is read as is shorter than what was written, so a misread key of least length would be read
as a key that is read as itself, and that one is another server's.

## Main definitions

* `AsyncApi.Names`: the component a reference names.
* `AsyncApi.SchemesKept`: every server refers to its own schemes, and to no one else's.
* `AsyncApi.OwnKeys`: the two things do not go wrong.

## Main results

* `AsyncApi.schemes_kept_iff`: the schemes are kept exactly when they do not.
-/

namespace RustStream.AsyncApi

open List

/-- The reference, read as a JSON pointer, names the security scheme under `key`. -/
def Names (reference : Reference) (key : String) : Prop :=
  Pointer.parse reference.target = some ["components", "securitySchemes", key]

/-- Every security reference of a server names a component that holds the scheme the server declared at its position,
and the references of different servers name different components. -/
structure SchemesKept (app : App) (spec : Spec) : Prop where
  holds : ∀ (name : String) (declared : ServerSpec), (name, declared) ∈ app.servers →
    ∃ server : Server, spec.servers.lookup name = some server
      ∧ server.security.length = declared.security.length
      ∧ ∀ (index : ℕ) (scheme : SecurityScheme), declared.security[index]? = some scheme → ∃ reference key,
        server.security[index]? = some reference ∧ Names reference key
          ∧ spec.components.securitySchemes.lookup key = some scheme.documentObject
  apart : ∀ (name name' : String) (server server' : Server), name ≠ name' → spec.servers.lookup name = some server →
    spec.servers.lookup name' = some server' →
    ∀ reference ∈ server.security, ∀ reference' ∈ server'.security, ∀ key, Names reference key → ¬ Names reference' key

/-- The servers that have schemes are named plainly, and none of them as another one's scheme. -/
structure OwnKeys (app : App) : Prop where
  plain : ∀ (name : String) (declared : ServerSpec), (name, declared) ∈ app.servers → declared.security ≠ [] → Pointer.Plain name.toList
  free : ∀ (name : String) (declared : ServerSpec) (name' : String) (declared' : ServerSpec),
    (name, declared) ∈ app.servers → (name', declared') ∈ app.servers →
    declared'.security ≠ [] → ∀ index, 0 < index → index < declared.security.length → name' ≠ schemeKey name index

/-! ## Keys -/

variable (name : String)

theorem toList_schemeKey {index : ℕ} (h : 0 < index) :
    (schemeKey name index).toList = name.toList ++ '-' :: Nat.toDigits 10 index := by
  rw [schemeKey, if_neg (Nat.ne_of_gt h), String.toList_append, String.toList_append, append_assoc,
    Nat.toString_eq_repr, Nat.toList_repr]
  rfl

theorem schemeKey_inj {name name' : String} {index index' : ℕ} (h : 0 < index) (h' : 0 < index')
    (heq : schemeKey name index = schemeKey name' index') : name = name' ∧ index = index' := by
  have hlists := congrArg String.toList heq
  rw [toList_schemeKey name h, toList_schemeKey name' h'] at hlists
  obtain ⟨hname, hindex⟩ := Decimal.suffix_inj (by decide) hlists
  exact ⟨String.toList_injective hname, hindex⟩

/-- Two schemes with one key: they are one scheme, or the first of a server is named as a later one of another. -/
theorem schemeKey_eq {name name' : String} {index index' : ℕ} (h : schemeKey name index = schemeKey name' index') :
    (name = name' ∧ index = index') ∨ (index = 0 ∧ 0 < index' ∧ name = schemeKey name' index')
      ∨ (index' = 0 ∧ 0 < index ∧ name' = schemeKey name index) := by
  rcases Nat.eq_zero_or_pos index with rfl | hpos
  · rcases Nat.eq_zero_or_pos index' with rfl | hpos'
    · exact Or.inl ⟨h, rfl⟩
    · exact Or.inr (Or.inl ⟨rfl, hpos', h⟩)
  · rcases Nat.eq_zero_or_pos index' with rfl | hpos'
    · exact Or.inr (Or.inr ⟨rfl, hpos, h.symm⟩)
    · exact Or.inl (schemeKey_inj hpos hpos' h)

theorem plain_schemeKey_iff (index : ℕ) :
    Pointer.Plain (schemeKey name index).toList ↔ Pointer.Plain name.toList := by
  rcases Nat.eq_zero_or_pos index with rfl | hpos
  · rfl
  · rw [toList_schemeKey name hpos, Pointer.plain_append_digits (by decide)]

theorem names_self_iff (index : ℕ) :
    Names (.securityScheme (schemeKey name index)) (schemeKey name index) ↔ Pointer.Plain name.toList := by
  rw [Names, Reference.target, Reference.path, Pointer.parse_reference_iff]
  simp only [forall_mem_cons, not_mem_nil, false_implies, implies_true, and_true, plain_schemeKey_iff]
  exact ⟨fun h => h.2.2, fun h => ⟨by decide, by decide, h⟩⟩

/-- A reference to a key names a shorter one, or that key. -/
theorem size_of_names {key key' : String} (h : Names (.securityScheme key) key') :
    Pointer.size key'.toList < Pointer.size key.toList ∨ key' = key :=
  @Pointer.size_parse ["components", "securitySchemes"] key key' h

/-! ## What the document holds -/

section Document

variable (alphanumeric : Char → Bool) (app : App)

theorem lookup_servers (name : String) : (buildSpec alphanumeric app).servers.lookup name
      = (app.servers.lookup name).map (buildServer name) :=
  Assoc.lookup_map buildServer name app.servers

variable {app}

variable {declared : ServerSpec}

variable {name : String}

theorem lookup_servers_of_mem (h : (name, declared) ∈ app.servers) :
    (buildSpec alphanumeric app).servers.lookup name = some (buildServer name declared) := by
  rw [lookup_servers, Assoc.lookup_of_mem app.servers_nodup h]
  rfl

theorem mem_of_lookup_servers {server : Server}
    (h : (buildSpec alphanumeric app).servers.lookup name = some server) :
    ∃ declared, (name, declared) ∈ app.servers ∧ server = buildServer name declared := by
  rw [lookup_servers] at h
  obtain ⟨declared, hlookup, rfl⟩ := Option.map_eq_some_iff.mp h
  exact ⟨declared, Assoc.mem_of_lookup_eq_some hlookup, rfl⟩

theorem getElem?_security (name : String) (declared : ServerSpec) (index : ℕ) :
    (buildServer name declared).security[index]?
      = declared.security[index]?.map fun _ => Reference.securityScheme (schemeKey name index) := by
  show ((schemeEntries name declared.security).map fun entry => Reference.securityScheme entry.1)[index]? = _
  rw [getElem?_map, schemeEntries, getElem?_mapIdx, Option.map_map]
  rfl

theorem length_security (name : String) (declared : ServerSpec) :
    (buildServer name declared).security.length = declared.security.length := by
  show ((schemeEntries name declared.security).map fun entry => Reference.securityScheme entry.1).length = _
  rw [length_map, schemeEntries, length_mapIdx]

theorem mem_security {reference : Reference}
    (h : reference ∈ (buildServer name declared).security) :
    ∃ index < declared.security.length, reference = .securityScheme (schemeKey name index) := by
  obtain ⟨index, hindex, hget⟩ := mem_iff_getElem.mp h
  have hsome := getElem?_eq_getElem hindex
  rw [hget, getElem?_security] at hsome
  obtain ⟨scheme, -, hreference⟩ := Option.map_eq_some_iff.mp hsome
  exact ⟨index, length_security name declared ▸ hindex, hreference.symm⟩

theorem security_mem {index : ℕ} (h : index < declared.security.length) :
    Reference.securityScheme (schemeKey name index) ∈ (buildServer name declared).security := by
  refine mem_iff_getElem?.mpr ⟨index, ?_⟩
  rw [getElem?_security, getElem?_eq_getElem h]
  rfl

theorem mem_keys {name key : String} {security : List SecurityScheme}
    (h : key ∈ (schemeEntries name security).map Prod.fst) : ∃ index < security.length, key = schemeKey name index := by
  obtain ⟨entry, hentry, rfl⟩ := mem_map.mp h
  obtain ⟨index, hindex, heq⟩ := mem_mapIdx.mp hentry
  exact ⟨index, hindex, by rw [← heq]⟩

/-- A component is some server's scheme. -/
theorem exists_of_lookup_schemes {key : String} {object : Json}
    (h : (buildSpec alphanumeric app).components.securitySchemes.lookup key = some object) :
    ∃ name declared index, (name, declared) ∈ app.servers ∧ index < declared.security.length
      ∧ key = schemeKey name index := by
  have hmem : key ∈ (app.servers.flatMap fun server => schemeEntries server.1 server.2.security).map Prod.fst := by
    by_contra hnot
    have hnone := Assoc.lookup_setAll_of_not_mem hnot ([] : List (String × Json))
    rw [lookup_nil] at hnone
    exact Option.some_ne_none object (h.symm.trans hnone)
  rw [map_flatMap] at hmem
  obtain ⟨⟨name, declared⟩, hserver, hkey⟩ := mem_flatMap.mp hmem
  obtain ⟨index, hindex, heq⟩ := mem_keys hkey
  exact ⟨name, declared, index, hserver, hindex, heq⟩

/-! ## When the schemes are kept -/

/-- Where the schemes are kept, names are plain: a key that is misread and of least length is read as a key that is
read as itself, which another server refers to. -/
theorem SchemesKept.plain (h : SchemesKept app (buildSpec alphanumeric app))
    (hmem : (name, declared) ∈ app.servers) {index : ℕ} (hindex : index < declared.security.length) :
    Pointer.Plain name.toList := by
  induction hsize : Pointer.size (schemeKey name index).toList using Nat.strong_induction_on
    generalizing name declared index with
  | _ size ih =>
    obtain ⟨server, hserver, -, hholds⟩ := h.holds name declared hmem
    rw [lookup_servers_of_mem alphanumeric hmem] at hserver
    cases hserver
    obtain ⟨reference, key, href, hnames, hlookup⟩ :=
      hholds index _ (getElem?_eq_getElem hindex)
    rw [getElem?_security, getElem?_eq_getElem hindex] at href
    cases href
    rcases size_of_names hnames with hshort | rfl
    · obtain ⟨name', declared', index', hmem', hindex', rfl⟩ := exists_of_lookup_schemes alphanumeric hlookup
      -- the shorter key is read as itself, so its server is this one or has been referred to twice
      have hplain := ih _ (hsize ▸ hshort) hmem' hindex' rfl
      by_cases hname : name = name'
      · exact hname ▸ hplain
      · exact absurd ((names_self_iff name' index').mpr hplain)
          (h.apart name name' _ _ hname (lookup_servers_of_mem alphanumeric hmem)
            (lookup_servers_of_mem alphanumeric hmem') _ (security_mem hindex) _ (security_mem hindex') _ hnames)
    · exact (names_self_iff name index).mp hnames

theorem ownKeys_of_kept (h : SchemesKept app (buildSpec alphanumeric app)) : OwnKeys app where
  plain name declared hmem hsome := h.plain alphanumeric hmem (length_pos_of_ne_nil hsome)
  free := by
    intro name declared name' declared' hmem hmem' hsome index hpos hindex heq
    have hplain := h.plain alphanumeric hmem hindex
    have hplain' := h.plain alphanumeric hmem' (length_pos_of_ne_nil hsome)
    have hname : name ≠ name' := by
      intro hsame
      have hlonger := congrArg (fun key => key.toList.length) (hsame.trans heq)
      simp only [toList_schemeKey name hpos, length_append, length_cons] at hlonger
      omega
    have hnames := (names_self_iff name index).mpr hplain
    have hnames' := (names_self_iff name' 0).mpr hplain'
    refine h.apart name name' _ _ hname (lookup_servers_of_mem alphanumeric hmem)
      (lookup_servers_of_mem alphanumeric hmem') _ (security_mem hindex) _
      (security_mem (length_pos_of_ne_nil hsome)) _ hnames ?_
    rw [← heq]
    exact hnames'

/-- With keys of their own no two schemes have one key. -/
theorem OwnKeys.eq_of_schemeKey_eq (h : OwnKeys app) {name name' : String} {declared declared' : ServerSpec}
    (hmem : (name, declared) ∈ app.servers) (hmem' : (name', declared') ∈ app.servers) {index index' : ℕ}
    (hindex : index < declared.security.length) (hindex' : index' < declared'.security.length)
    (heq : schemeKey name index = schemeKey name' index') : name = name' ∧ index = index' := by
  have hsome := ne_nil_of_length_pos (Nat.zero_lt_of_lt hindex)
  have hsome' := ne_nil_of_length_pos (Nat.zero_lt_of_lt hindex')
  rcases schemeKey_eq heq with hsame | ⟨-, hpos, hname⟩ | ⟨-, hpos, hname⟩
  · exact hsame
  · exact absurd hname (h.free name' declared' name declared hmem' hmem hsome index' hpos hindex')
  · exact absurd hname (h.free name declared name' declared' hmem hmem' hsome' index hpos hindex)

theorem OwnKeys.nodup (h : OwnKeys app) :
    ((app.servers.flatMap fun server => schemeEntries server.1 server.2.security).map Prod.fst).Nodup := by
  rw [map_flatMap, nodup_flatMap]
  refine ⟨fun server hmem => ?_, ?_⟩
  · refine nodup_iff_getElem?_ne_getElem?.mpr fun index index' hlt hlength heq => ?_
    rw [length_map, schemeEntries, length_mapIdx] at hlength
    simp only [schemeEntries, getElem?_map, getElem?_mapIdx, Option.map_map,
      getElem?_eq_getElem hlength, getElem?_eq_getElem (hlt.trans hlength)] at heq
    have := (h.eq_of_schemeKey_eq hmem hmem (hlt.trans hlength) hlength (Option.some.inj heq)).2
    omega
  · have hnames := pairwise_map.mp app.servers_nodup
    refine hnames.imp_of_mem fun {server server'} hmem hmem' hname => ?_
    intro key hkey hkey'
    obtain ⟨index, hindex, rfl⟩ := mem_keys hkey
    obtain ⟨index', hindex', heq⟩ := mem_keys hkey'
    exact hname (h.eq_of_schemeKey_eq hmem hmem' hindex hindex' heq).1

theorem kept_of_ownKeys (h : OwnKeys app) : SchemesKept app (buildSpec alphanumeric app) where
  holds := by
    intro name declared hmem
    refine ⟨_, lookup_servers_of_mem alphanumeric hmem, length_security name declared, ?_⟩
    intro index scheme hscheme
    obtain ⟨hindex, hget⟩ := List.getElem?_eq_some_iff.mp hscheme
    refine ⟨.securityScheme (schemeKey name index), schemeKey name index, ?_, ?_, ?_⟩
    · rw [getElem?_security, hscheme]
      rfl
    · exact (names_self_iff name index).mpr
        (h.plain name declared hmem (ne_nil_of_length_pos (Nat.zero_lt_of_lt hindex)))
    · refine Assoc.lookup_setAll_of_mem h.nodup ?_ []
      refine mem_flatMap.mpr ⟨(name, declared), hmem, mem_mapIdx.mpr ⟨index, hindex, ?_⟩⟩
      rw [hget]
  apart := by
    intro name name' server server' hname hserver hserver' reference href reference' href' key hnames hnames'
    obtain ⟨declared, hmem, rfl⟩ := mem_of_lookup_servers alphanumeric hserver
    obtain ⟨declared', hmem', rfl⟩ := mem_of_lookup_servers alphanumeric hserver'
    obtain ⟨index, hindex, rfl⟩ := mem_security href
    obtain ⟨index', hindex', rfl⟩ := mem_security href'
    have hself := (names_self_iff name index).mpr
      (h.plain name declared hmem (ne_nil_of_length_pos (Nat.zero_lt_of_lt hindex)))
    have hself' := (names_self_iff name' index').mpr
      (h.plain name' declared' hmem' (ne_nil_of_length_pos (Nat.zero_lt_of_lt hindex')))
    have hkey := hnames.symm.trans hself
    have hkey' := hnames'.symm.trans hself'
    simp only [Option.some.injEq, List.cons.injEq, and_true, true_and] at hkey hkey'
    exact hname (h.eq_of_schemeKey_eq hmem hmem' hindex hindex' (hkey.symm.trans hkey')).1

/-- **When servers keep their security schemes.** -/
theorem schemes_kept_iff (app : App) : SchemesKept app (buildSpec alphanumeric app) ↔ OwnKeys app :=
  ⟨ownKeys_of_kept alphanumeric, kept_of_ownKeys alphanumeric⟩

/-- The second scheme of `a` and the first of `a-1` are one component. -/
theorem scheme_overwritten : ∃ app : App,
    app.servers = [("a", { protocol := "kafka", security := [⟨.plain, none⟩, ⟨.x509, none⟩] }),
        ("a-1", { protocol := "kafka", security := [⟨.userPassword, none⟩] })]
      ∧ ¬ SchemesKept app (buildSpec Char.isAlphanum app) := by
  refine ⟨⟨{ title := "orders", version := "1.0.0" }, _, by decide, []⟩, rfl, fun hkept => ?_⟩
  have hfree := (ownKeys_of_kept Char.isAlphanum hkept).free "a" _ "a-1" _ List.mem_cons_self
    (List.mem_cons_of_mem _ List.mem_cons_self) (List.cons_ne_nil _ _) 1 Nat.one_pos (by decide)
  exact hfree (by decide)

end Document

end RustStream.AsyncApi
