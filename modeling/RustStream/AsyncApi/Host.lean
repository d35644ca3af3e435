import RustStream.Lib.Split

/-!
# The host a server description publishes

A broker configured from a URL describes itself by the host and port the URL names. The URL may carry
credentials and the description is published, so the userinfo is cut off: the scheme first, then whatever
follows the authority, then everything up to the last `@` of what is left.

The authority is taken to end at the first `/`, `?` or `#` after the scheme, wherever that stands. One that
stands in the credentials ends it there, and what precedes it is published.

## Main definitions

* `hostFromUrl`: the host and port of a URL.
* `Endpoint`, `Credentials`: a URL apart from its credentials, and those.

## Main results

* `host_from_url_iff`: when the published host is the endpoint's own.
-/

namespace RustStream

namespace Server

/-- The characters an authority ends at. -/
def endsAuthority (c : Char) : Bool :=
  c == '/' || c == '?' || c == '#'

/-- What a scheme ends with. -/
def schemeEnd : List Char :=
  [':', '/', '/']

/-- What follows the last `@`, or everything. -/
def afterUserinfo (authority : List Char) : List Char :=
  ((Split.lastOnce (· == '@') authority).map Prod.snd).getD authority

/-- The host and port a URL names, without the scheme, the userinfo, or anything after the host. -/
def hostFromUrl (url : List Char) : List Char :=
  let afterScheme := ((Split.onceAt schemeEnd url).map Prod.snd).getD url
  let authority := ((Split.once endsAuthority afterScheme).map Prod.fst).getD afterScheme
  afterUserinfo authority

/-! ## URLs with credentials -/

/-- A URL apart from its credentials. Host and port hold none of a URL's delimiters; what follows them is empty or
begins with one. -/
structure Endpoint where
  scheme : List Char
  host : List Char
  port : List Char
  rest : List Char
  scheme_plain : ¬ schemeEnd <:+: scheme
  host_plain : ∀ c ∈ host, endsAuthority c = false ∧ c ≠ '@'
  port_plain : ∀ c ∈ port, endsAuthority c = false ∧ c ≠ '@'
  rest_apart : ∀ c ∈ rest.head?, endsAuthority c = true

/-- A user and a password, of any characters. -/
structure Credentials where
  user : List Char
  password : List Char

/-- The credentials as a URL carries them. -/
def Credentials.text (c : Credentials) : List Char :=
  c.user ++ ':' :: c.password

namespace Endpoint

def address (e : Endpoint) : List Char :=
  e.host ++ ':' :: e.port

def url (e : Endpoint) (c : Credentials) : List Char :=
  e.scheme ++ schemeEnd ++ (c.text ++ '@' :: (e.address ++ e.rest))

/-- The credentials hold no character an authority ends at, or what stands before the first of them reads as the
endpoint's own address. -/
def Hides (e : Endpoint) (c : Credentials) : Prop :=
  (∀ char ∈ c.text, endsAuthority char = false) ∨
    ∃ before char after, c.text = before ++ char :: after ∧ endsAuthority char = true ∧
      (∀ other ∈ before, endsAuthority other = false) ∧ afterUserinfo before = e.address

theorem address_plain (e : Endpoint) : ∀ c ∈ e.address, endsAuthority c = false ∧ c ≠ '@' := by
  intro c hc
  rcases List.mem_append.mp hc with hhost | hport
  · exact e.host_plain c hhost
  · rcases List.mem_cons.mp hport with rfl | hport
    · exact ⟨rfl, by decide⟩
    · exact e.port_plain c hport

end Endpoint

/-! ## The three cuts -/

/-- The first `://` of a URL is the one its scheme ends with. No proper end of the pattern begins it, so none can
begin in the scheme and end behind it. -/
theorem onceAt_scheme {scheme : List Char} (hplain : ¬ schemeEnd <:+: scheme) (rest : List Char) :
    Split.onceAt schemeEnd (scheme ++ schemeEnd ++ rest) = some (scheme, rest) := by
  refine Split.onceAt_append (by decide) ?_
  rintro first last rfl hlast ⟨tail, htail⟩
  obtain ⟨a, last, rfl⟩ := List.exists_cons_of_ne_nil hlast
  cases last with
  | nil =>
    -- one character of the scheme, then the pattern's own colon
    simp [schemeEnd] at htail
  | cons b last =>
    cases last with
    | nil => simp [schemeEnd] at htail
    | cons c last =>
      simp only [schemeEnd, List.cons_append, List.cons.injEq] at htail
      obtain ⟨rfl, rfl, rfl, -⟩ := htail
      exact hplain ⟨first, last, by simp [schemeEnd]⟩

theorem afterUserinfo_append {address : List Char} (h : ∀ c ∈ address, c ≠ '@') (userinfo : List Char) :
    afterUserinfo (userinfo ++ '@' :: address) = address := by
  have hsome : Split.lastOnce (· == '@') (userinfo ++ '@' :: address) = some (userinfo, address) :=
    Split.lastOnce_append_cons rfl (fun c hc => beq_eq_false_iff_ne.mpr (h c hc)) userinfo
  rw [afterUserinfo, hsome]
  rfl

namespace Endpoint

variable (e : Endpoint)

theorem hostFromUrl_url (c : Credentials) : hostFromUrl (e.url c) =
      afterUserinfo (((Split.once endsAuthority (c.text ++ '@' :: (e.address ++ e.rest))).map Prod.fst).getD
        (c.text ++ '@' :: (e.address ++ e.rest))) := by
  rw [hostFromUrl, url, onceAt_scheme e.scheme_plain]
  rfl

/-- Credentials without a delimiter are cut off. -/
theorem hostFromUrl_of_plain {c : Credentials} (h : ∀ char ∈ c.text, endsAuthority char = false) :
    hostFromUrl (e.url c) = e.address := by
  have hplain : ∀ char ∈ c.text ++ '@' :: e.address, endsAuthority char = false := by
    intro char hchar
    rcases List.mem_append.mp hchar with htext | haddress
    · exact h char htext
    · rcases List.mem_cons.mp haddress with rfl | haddress
      · rfl
      · exact (e.address_plain char haddress).1
  have hat : ∀ char ∈ e.address, char ≠ '@' := fun char hchar => (e.address_plain char hchar).2
  rw [hostFromUrl_url]
  cases hrest : e.rest with
  | nil =>
    rw [List.append_nil, Split.once_eq_none_iff.mpr hplain]
    exact afterUserinfo_append hat c.text
  | cons d tail =>
    have hd : endsAuthority d = true := e.rest_apart d (by rw [hrest]; rfl)
    have hsplit := Split.once_append_cons hplain hd tail
    rw [List.append_assoc, List.cons_append] at hsplit
    rw [hsplit]
    exact afterUserinfo_append hat c.text

/-- The first delimiter of the credentials ends the authority. -/
theorem hostFromUrl_of_delimiter {c : Credentials} {before after : List Char} {char : Char}
    (htext : c.text = before ++ char :: after) (hchar : endsAuthority char = true)
    (hbefore : ∀ other ∈ before, endsAuthority other = false) :
    hostFromUrl (e.url c) = afterUserinfo before := by
  have hsplit := Split.once_append_cons hbefore hchar (after ++ '@' :: (e.address ++ e.rest))
  rw [← List.cons_append, ← List.append_assoc, ← htext] at hsplit
  rw [hostFromUrl_url, hsplit]
  rfl

theorem hostFromUrl_eq_iff (c : Credentials) : hostFromUrl (e.url c) = e.address ↔ e.Hides c := by
  constructor
  · intro h
    cases hsplit : Split.once endsAuthority c.text with
    | none => exact Or.inl (Split.once_eq_none_iff.mp hsplit)
    | some parts =>
      obtain ⟨char, hchar, htext, hbefore⟩ := Split.once_eq_some_iff.mp hsplit
      refine Or.inr ⟨parts.1, char, parts.2, htext, hchar, hbefore, ?_⟩
      rw [← h, e.hostFromUrl_of_delimiter htext hchar hbefore]
  · rintro (hplain | ⟨before, char, after, htext, hchar, hbefore, haddress⟩)
    · exact e.hostFromUrl_of_plain hplain
    · rw [e.hostFromUrl_of_delimiter htext hchar hbefore, haddress]

end Endpoint

/-- **When credentials stay out of the published host.** Two URLs that differ only in their credentials both give
the endpoint's host and port exactly when neither user nor password holds a `/`, `?` or `#`, or what stands
before the first of them happens to read as that address. -/
theorem host_from_url_iff (e : Endpoint) (one other : Credentials) :
    hostFromUrl (e.url one) = e.address ∧ hostFromUrl (e.url other) = e.address ↔
      e.Hides one ∧ e.Hides other := by
  rw [e.hostFromUrl_eq_iff, e.hostFromUrl_eq_iff]

/-- A password with a slash: the user and the password's beginning are published, and the host is not. -/
theorem password_published :
    ∃ (e : Endpoint) (one other : Credentials),
      hostFromUrl (e.url one) = "svc:pa".toList ∧ hostFromUrl (e.url other) = "broker:5672".toList ∧
        e.address = "broker:5672".toList := by
  have hplain : ∀ {text : List Char}, text.all (fun c => !endsAuthority c && c != '@') = true →
      ∀ c ∈ text, endsAuthority c = false ∧ c ≠ '@' := by
    intro text h c hc
    simpa using List.all_eq_true.mp h c hc
  refine ⟨⟨"amqp".toList, "broker".toList, "5672".toList, "/prod".toList, by decide, hplain rfl,
    hplain rfl, fun c hc => ?_⟩, ⟨"svc".toList, "pa/ss".toList⟩, ⟨"svc".toList, "secret".toList⟩, rfl, rfl, rfl⟩
  cases hc
  rfl

end Server

end RustStream
