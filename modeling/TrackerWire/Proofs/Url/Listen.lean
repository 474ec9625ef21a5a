import TrackerWire.Listen
import TrackerWire.Proofs.Url.Parts

/-!
# Where a locator says to listen

The host and port to listen on are those that stand in the locator: a text is listened on exactly
if it has the form `scheme://user@host:port` with scheme `tcp` in any case, perhaps with a path, a
query or a fragment behind it (`listenOn_eq_ok_iff`). Another scheme is refused whatever stands
behind it (`listenOn_unsupported_iff`), and a refusal shows unless it tells the text back
(`refusal_shows`).
-/
namespace TrackerWire

open Text Url

/-- The parts of an authority that names a host and a port. -/
structure AuthorityParts (host : String) (port : Nat) where
  /-- The user's part with the at sign behind it, or nothing. -/
  user : List Char
  /-- The host as it stands in the text. -/
  shown : List Char
  digits : List Char
  /-- The start of a path, which a backslash opens. -/
  start : List Char
  user_ends : user = [] ∨ ∃ name, user = name ++ ['@']
  shown_text : HostText shown
  shown_reads : readHost shown = some host
  host_ne : host ≠ ""
  digits_ne : digits ≠ []
  digits_only : ∀ c ∈ digits, c.isDigit = true
  digits_value : port = IpAddress.digitsValue 10 digits
  port_le : port ≤ 65535
  start_mark : ∀ c ∈ start.head?, c = '\\'
  no_at : '@' ∉ shown ∧ '@' ∉ start

namespace AuthorityParts

variable {host : String} {port : Nat}

def text (parts : AuthorityParts host port) : List Char :=
  parts.user ++ (parts.shown ++ ':' :: (parts.digits ++ parts.start))

theorem readAuthority_text (parts : AuthorityParts host port) : ∃ user,
    readAuthority parts.text = some ((user, host, some port), parts.start) := by
  have hdigit : '@' ∉ parts.digits := fun h => absurd (parts.digits_only '@' h) (by decide)
  have huser : (splitUser parts.text).2 = parts.shown ++ ':' :: (parts.digits ++ parts.start) :=
    splitUser_append (by simp [parts.no_at.1, parts.no_at.2, hdigit]) parts.user_ends
  have hsplit := splitPort_eq_iff.mpr
    ⟨(rfl : parts.shown ++ ':' :: (parts.digits ++ parts.start) = _), parts.shown_text⟩
  have hdigits := readDigits_eq_some_iff.mpr ⟨parts.digits, rfl, parts.digits_ne,
    parts.digits_only, parts.start_mark, parts.digits_value, parts.port_le⟩
  have hshown : parts.shown ≠ [] := by
    intro h
    have hreads := parts.shown_reads
    rw [h] at hreads
    exact parts.host_ne (Option.some.inj hreads).symm
  refine ⟨userText (splitUser parts.text).1, ?_⟩
  unfold readAuthority
  dsimp only
  rw [huser, hsplit]
  dsimp only
  rw [if_neg fun h => hshown h.1, parts.shown_reads]
  show (readPort (':' :: (parts.digits ++ parts.start))).bind _ = _
  rw [readPort, hdigits]
  rfl

theorem of_readAuthority {chars start : List Char} {user : String}
    (h : readAuthority chars = some ((user, host, some port), start)) (hne : host ≠ "") :
    ∃ parts : AuthorityParts host port, chars = parts.text := by
  obtain ⟨front, hchars, hfront, hat⟩ := splitUser_eq chars
  unfold readAuthority at h
  dsimp only at h
  generalize (splitUser chars).2 = rest at h hchars hat
  generalize hport : splitPort rest = parts at h
  obtain ⟨shown, behind⟩ := parts
  split at h
  · cases h
  · obtain ⟨name, hname, h⟩ := Option.bind_eq_some_iff.mp h
    obtain ⟨⟨number, path⟩, hdigits, h⟩ := Option.bind_eq_some_iff.mp h
    cases h
    cases behind with
    | nil => cases hdigits
    | cons mark behind =>
      obtain rfl : mark = ':' := head_splitPort rest mark (by rw [hport]; rfl)
      obtain ⟨rfl, hshown⟩ := splitPort_eq_iff.mp hport
      obtain ⟨digits, rfl, hdigits_ne, hdigits, hstart, hvalue, hle⟩ :=
        readDigits_eq_some_iff.mp hdigits
      refine ⟨{
        user := front, shown, digits, start := path
        user_ends := hfront.imp_right fun h => ⟨_, h⟩
        shown_text := hshown
        shown_reads := hname
        host_ne := hne
        digits_ne := hdigits_ne
        digits_only := hdigits
        digits_value := hvalue
        port_le := hle
        start_mark := hstart
        no_at := ?_ }, hchars⟩
      simp only [List.mem_append, List.mem_cons, not_or] at hat
      exact ⟨hat.1, hat.2.2.2⟩

end AuthorityParts

/-- The parts of a locator that names a host and a port. -/
structure LocatorParts (host : String) (port : Nat) extends AuthorityParts host port where
  scheme : List Char
  /-- The rest of the path, the query and the fragment. -/
  tail : List Char
  scheme_tcp : String.ofList (scheme.map Char.toLower) = "tcp"
  inside : ∀ c ∈ toAuthorityParts.text, ¬EndsAuthority c
  tail_mark : ∀ c ∈ tail.head?, EndsAuthority c

def LocatorParts.text {host : String} {port : Nat} (parts : LocatorParts host port) : List Char :=
  parts.scheme ++ ':' :: '/' :: '/' :: (parts.toAuthorityParts.text ++ parts.tail)

theorem hostAndPort_eq_ok_iff {url : Url} {host : String} {port : Nat} :
    hostAndPort url = .ok (host, port) ↔
      ∃ user, url.authority = some (user, host, some port) ∧ host ≠ "" := by
  unfold hostAndPort host? port?
  constructor
  · intro h
    cases hauthority : url.authority with
    | none =>
      rw [hauthority] at h
      cases h
    | some read =>
      obtain ⟨user, shown, number⟩ := read
      rw [hauthority] at h
      dsimp only at h
      by_cases hne : shown = ""
      · rw [if_pos hne] at h
        cases h
      · rw [if_neg hne] at h
        cases number with
        | none => cases h
        | some number =>
          cases h
          exact ⟨user, rfl, hne⟩
  · rintro ⟨user, hauthority, hne⟩
    rw [hauthority]
    dsimp only
    rw [if_neg hne]

theorem isAlpha_of_toLower {c : Char} (h : c.toLower.isAlpha = true) : c.isAlpha = true := by
  unfold Char.toLower at h
  split at h
  · rename_i hupper
    exact Bool.or_eq_true_iff.mpr (.inl (decide_eq_true hupper))
  · exact h

theorem schemeText_tcp {shown : List Char} (h : String.ofList (shown.map Char.toLower) = "tcp") :
    SchemeText shown := by
  have hletters : Only Char.isAlpha (String.ofList (shown.map Char.toLower)) := by
    rw [h]
    decide
  have halpha : ∀ c ∈ shown, c.isAlpha = true := fun c hc =>
    isAlpha_of_toLower (hletters _ (String.toList_ofList.symm ▸ List.mem_map_of_mem hc))
  refine ⟨?_, fun c hc => .inl (Bool.or_eq_true_iff.mpr (.inl (halpha c hc)))⟩
  cases shown with
  | nil => exact absurd h (by decide)
  | cons c others => exact ⟨c, rfl, halpha c List.mem_cons_self⟩

/-- **A server listens exactly on the host and port that the locator's text names.** -/
theorem listenOn_eq_ok_iff {text : String} {host : String} {port : Nat} :
    listenOn text = .ok (host, port) ↔
      ∃ parts : LocatorParts host port, significant text = parts.text := by
  constructor
  · intro h
    unfold listenOn at h
    split at h
    · cases h
    · rename_i scheme rest hsplit
      obtain ⟨shown, hchars, -, hlower⟩ := readScheme_eq_some_iff.mp hsplit
      split at h
      · rename_i htcp
        split at h
        · cases h
        · rename_i url hrest
          obtain ⟨user, hauthority, hne⟩ := hostAndPort_eq_ok_iff.mp h
          obtain ⟨authority, tail, start, rfl, hinside, htail, hread⟩ :=
            authority_of_ofRest? hrest hauthority
          obtain ⟨parts, rfl⟩ := AuthorityParts.of_readAuthority hread hne
          exact ⟨{
            toAuthorityParts := parts, scheme := shown, tail
            scheme_tcp := hlower.symm.trans htcp
            inside := hinside
            tail_mark := htail }, hchars⟩
      · cases h
  · rintro ⟨parts, hchars⟩
    have hsplit := readScheme_eq_some_iff.mpr
      ⟨parts.scheme, hchars, schemeText_tcp parts.scheme_tcp, parts.scheme_tcp.symm⟩
    obtain ⟨path, query, fragment, hrest⟩ :=
      ofRest?_authority "tcp" parts.inside parts.tail_mark
    obtain ⟨user, hread⟩ := parts.toAuthorityParts.readAuthority_text
    unfold listenOn split?
    rw [hsplit]
    dsimp only
    rw [if_pos rfl, hrest, hread]
    exact hostAndPort_eq_ok_iff.mpr ⟨user, rfl, parts.host_ne⟩

/-- Does the character stand for itself in a host? -/
def isPlain (c : Char) : Bool :=
  0x20 < c.toNat && c.toNat ≤ 0x7E && !hostForbidden.contains c && c ≠ '/' && c ≠ '?' && c ≠ '#'

theorem bounds_of_isPlain {c : Char} (h : isPlain c = true) :
    0x20 < c.toNat ∧ c.toNat ≤ 0x7E ∧ c ∉ hostForbidden ∧ ¬EndsAuthority c := by
  simp only [isPlain, Bool.and_eq_true, decide_eq_true_eq, Bool.not_eq_true',
    List.contains_eq_mem, decide_eq_false_iff_not] at h
  obtain ⟨⟨⟨⟨⟨hlow, hhigh⟩, hforbidden⟩, hslash⟩, hquery⟩, hfragment⟩ := h
  exact ⟨hlow, hhigh, hforbidden, by rintro (h | h | h) <;> contradiction⟩

theorem readHost_plain {host : String} (h : Only isPlain host) :
    readHost host.toList = some host := by
  have hforbidden : host.toList.any hostForbidden.contains = false := by
    refine List.any_eq_false.mpr fun c hc => ?_
    have hplain := (bounds_of_isPlain (h c hc)).2.2.1
    rwa [List.contains_iff_mem]
  have hencode : encode [] host.toList = host := by
    rw [encode_eq_self fun c hc => ?_, String.ofList_toList]
    obtain ⟨hlow, hhigh, -⟩ := bounds_of_isPlain (h c hc)
    simp only [Url.isControl, Bool.or_eq_false_iff, decide_eq_false_iff_not, List.not_mem_nil,
      not_false_eq_true, and_true]
    omega
  unfold readHost
  split
  · rename_i hbracket
    exact absurd (h '[' (hbracket ▸ List.mem_cons_self)) (by decide)
  · rw [if_neg (by rw [hforbidden]; decide), hencode]

theorem authorityParts_plain {host : String} {port : Nat} (hne : host ≠ "")
    (hhost : Only isPlain host) (hport : port ≤ 65535) : ∃ parts : AuthorityParts host port,
      parts.text = host.toList ++ ':' :: Nat.toDigits 10 port := by
  have hnot {c : Char} (hc : isPlain c = false) : c ∉ host.toList := hhost.not_mem hc
  refine ⟨{
    user := [], shown := host.toList, digits := Nat.toDigits 10 port, start := []
    user_ends := .inl rfl
    shown_text := .plain (fun h => hnot (by decide) (List.mem_of_mem_head? h)) (hnot (by decide))
    shown_reads := readHost_plain hhost
    host_ne := hne
    digits_ne := toDigits_ne_nil (by decide) port
    digits_only := fun c hc => Nat.isDigit_of_mem_toDigits (by decide) (by decide) hc
    digits_value := (digitsValue_toDigits port).symm
    port_le := hport
    start_mark := nofun
    no_at := ⟨hnot (by decide), List.not_mem_nil⟩ }, ?_⟩
  show [] ++ (host.toList ++ ':' :: (Nat.toDigits 10 port ++ [])) = _
  rw [List.append_nil, List.nil_append]

theorem lower_toList {scheme lower : String} (h : scheme.map Char.toLower = lower) :
    String.ofList (scheme.toList.map Char.toLower) = lower := by
  rw [← h, ← String.toList_map, String.ofList_toList]

/-- A locator whose authority shows is cut behind it. -/
theorem significant_locator {scheme tail : String} {authority : List Char}
    (hscheme : SchemeText scheme.toList)
    (hauthority : ∀ c ∈ authority, 0x20 < c.toNat)
    (htail : ∀ c ∈ tail.toList.head?, EndsAuthority c) : ∃ tail',
      significant (scheme ++ "://" ++ String.ofList authority ++ tail) =
        scheme.toList ++ ':' :: '/' :: '/' :: (authority ++ tail') ∧
      ∀ c ∈ tail'.head?, EndsAuthority c := by
  have hfront : ∀ c ∈ scheme.toList ++ ':' :: '/' :: '/' :: authority, 0x20 < c.toNat := by
    refine List.forall_mem_append.mpr ⟨fun c hc => (hscheme.bounds c hc).1, ?_⟩
    simp only [List.forall_mem_cons]
    exact ⟨by decide, by decide, by decide, hauthority⟩
  have hmark : ∀ c ∈ tail.toList.head?, 0x20 < c.toNat := fun c hc => by
    rcases htail c hc with rfl | rfl | rfl <;> decide
  obtain ⟨tail', hcounts, hhead⟩ := significant_append (by simp) hfront hmark
  have htext : scheme ++ "://" ++ String.ofList authority ++ tail = String.ofList
      (scheme.toList ++ ':' :: '/' :: '/' :: authority ++ tail.toList) :=
    String.toList_injective (by simp)
  refine ⟨tail', ?_, fun c hc => htail c (hhead ▸ hc)⟩
  rw [htext, hcounts, List.append_assoc]
  rfl

/-- **A plain host and a port are listened on as they stand**, whatever path, query or fragment is
behind them. -/
theorem listenOn_tcp {scheme host tail : String} {port : Nat}
    (hscheme : scheme.map Char.toLower = "tcp") (hne : host ≠ "") (hhost : Only isPlain host)
    (hport : port ≤ 65535) (htail : ∀ c ∈ tail.toList.head?, EndsAuthority c) :
    listenOn (scheme ++ "://" ++ (host ++ ":" ++ toString port) ++ tail) = .ok (host, port) := by
  have hlower := lower_toList hscheme
  obtain ⟨parts, hparts⟩ := authorityParts_plain hne hhost hport
  have hshow : ∀ c ∈ parts.text, 0x20 < c.toNat ∧ ¬EndsAuthority c := by
    rw [hparts]
    refine List.forall_mem_append.mpr ⟨fun c hc => ?_, List.forall_mem_cons.mpr
      ⟨⟨by decide, by rintro (h | h | h) <;> cases h⟩, fun c hc => ?_⟩⟩
    · obtain ⟨hlow, -, -, hends⟩ := bounds_of_isPlain (hhost c hc)
      exact ⟨hlow, hends⟩
    · have hdigit := Nat.isDigit_of_mem_toDigits (by decide) (by decide) hc
      have hbounds : 48 ≤ c.toNat ∧ c.toNat ≤ 57 := Char.isDigit_iff_toNat.mp hdigit
      refine ⟨by omega, ?_⟩
      rintro (rfl | rfl | rfl) <;> exact absurd hdigit (by decide)
  obtain ⟨tail', hcounts, hmark⟩ := significant_locator (schemeText_tcp hlower)
    (fun c hc => (hshow c hc).1) htail
  have htext : host ++ ":" ++ toString port = String.ofList parts.text := by
    rw [hparts, Nat.toString_eq_ofList_toDigits]
    exact String.toList_injective (by simp)
  refine listenOn_eq_ok_iff.mpr ⟨{
    toAuthorityParts := parts, scheme := scheme.toList, tail := tail'
    scheme_tcp := hlower
    inside := fun c hc => (hshow c hc).2
    tail_mark := hmark }, ?_⟩
  rw [htext, hcounts]
  rfl

example : listenOn "TCP://0.0.0.0:5009/?debug" = .ok ("0.0.0.0", 5009) := by decide

/-! ## Refusals -/

theorem hostAndPort_error {url : Url} {e : ListenError} (h : hostAndPort url = .error e) :
    e = .missingHost url ∨ e = .missingPort url := by
  unfold hostAndPort at h
  split at h <;> cases h
  · exact .inl rfl
  · exact .inr rfl

theorem hostAndPort_no_port {url : Url} {user host : String}
    (h : url.authority = some (user, host, none)) (hne : host ≠ "") :
    url.host? = some host ∧ hostAndPort url = .error (.missingPort url) := by
  unfold hostAndPort host? port?
  rw [h]
  dsimp only
  rw [if_neg hne]
  exact ⟨rfl, rfl⟩

theorem readAuthority_plain {host : String} (hne : host ≠ "") (hhost : Only isPlain host) :
    ∃ user, readAuthority host.toList = some ((user, host, none), []) := by
  have huser : (splitUser ([] ++ host.toList)).2 = host.toList :=
    splitUser_append (hhost.not_mem (by decide)) (.inl rfl)
  have hbracket : host.toList.head? ≠ some '[' := fun h =>
    hhost.not_mem (by decide) (List.mem_of_mem_head? h)
  have hport : splitPort host.toList = (host.toList, []) := by
    rw [splitPort_plain hbracket]
    refine spanUntil_eq_iff.mpr ⟨(List.append_nil _).symm, fun c hc => ?_, nofun⟩
    exact decide_eq_false fun h => hhost.not_mem (by decide) (h ▸ hc)
  rw [List.nil_append] at huser
  refine ⟨userText (splitUser host.toList).1, ?_⟩
  unfold readAuthority
  dsimp only
  rw [huser, hport]
  dsimp only
  rw [if_neg fun h => hne (String.toList_eq_nil_iff.mp h.1), readHost_plain hhost]
  rfl

/-- **A plain host without a port is refused for the port.** -/
theorem listenOn_no_port {scheme host tail : String} (hscheme : scheme.map Char.toLower = "tcp")
    (hne : host ≠ "") (hhost : Only isPlain host)
    (htail : ∀ c ∈ tail.toList.head?, EndsAuthority c) : ∃ url, url.host? = some host ∧
      listenOn (scheme ++ "://" ++ host ++ tail) = .error (.missingPort url) := by
  have hlower := lower_toList hscheme
  have hshow (c : Char) (hc : c ∈ host.toList) := bounds_of_isPlain (hhost c hc)
  obtain ⟨tail', hcounts, hmark⟩ := significant_locator (schemeText_tcp hlower)
    (fun c hc => (hshow c hc).1) htail
  obtain ⟨path, query, fragment, hrest⟩ :=
    ofRest?_authority "tcp" (fun c hc => (hshow c hc).2.2.2) hmark
  obtain ⟨user, hread⟩ := readAuthority_plain hne hhost
  rw [String.ofList_toList] at hcounts
  have hsplit := readScheme_eq_some_iff.mpr ⟨scheme.toList, hcounts, schemeText_tcp hlower,
    hlower.symm⟩
  rw [hread] at hrest
  obtain ⟨url, hrest, hauthority⟩ : ∃ url,
      ofRest? "tcp" ('/' :: '/' :: (host.toList ++ tail')) = some url ∧
      url.authority = some (user, host, none) := ⟨_, hrest, rfl⟩
  obtain ⟨hhost, hrefused⟩ := hostAndPort_no_port hauthority hne
  refine ⟨url, hhost, ?_⟩
  unfold listenOn split?
  rw [hsplit]
  dsimp only
  rw [if_pos rfl, hrest]
  exact hrefused

/-- **Another scheme is refused, whatever stands behind it.** -/
theorem listenOn_unsupported_iff {text scheme : String} :
    listenOn text = .error (.unsupportedScheme scheme) ↔ scheme ≠ "tcp" ∧ ∃ shown rest,
      significant text = shown ++ ':' :: rest ∧ SchemeText shown ∧
      scheme = String.ofList (shown.map Char.toLower) := by
  constructor
  · intro h
    unfold listenOn at h
    split at h
    · cases h
    · rename_i rest hsplit
      split at h
      · split at h
        · cases h
        · rcases hostAndPort_error h with h | h <;> cases h
      · rename_i hother
        cases h
        obtain ⟨shown, hchars, hshown, hlower⟩ := readScheme_eq_some_iff.mp hsplit
        exact ⟨hother, shown, rest, hchars, hshown, hlower⟩
  · rintro ⟨hother, shown, rest, hchars, hshown, hlower⟩
    have hsplit := readScheme_eq_some_iff.mpr ⟨shown, hchars, hshown, hlower⟩
    unfold listenOn split?
    rw [hsplit]
    exact if_neg hother

/-- **A refusal shows**, unless it tells the text back. -/
theorem refusal_shows {text : String} {e : ListenError} (h : listenOn text = .error e) :
    e = .malformed text ∨ Visible e.message := by
  unfold listenOn at h
  split at h
  · cases h
    exact .inl rfl
  · rename_i scheme rest hsplit
    obtain ⟨shown, -, hshown, hlower⟩ := readScheme_eq_some_iff.mp hsplit
    have hscheme : Visible scheme := hlower ▸ hshown.visible
    split at h
    · split at h
      · cases h
        exact .inl rfl
      · rename_i url hrest
        have hurl := (ofRest?_shows hscheme hrest).1.visible_text
        rcases hostAndPort_error h with rfl | rfl <;>
          exact .inr (visible_append.mpr ⟨by decide, hurl⟩)
    · cases h
      exact .inr (visible_append.mpr ⟨visible_append.mpr ⟨by decide, hscheme⟩, by decide⟩)

end TrackerWire
