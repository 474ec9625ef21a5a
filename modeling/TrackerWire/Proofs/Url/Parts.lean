import Mathlib.Data.List.TakeWhile
import TrackerWire.Proofs.Url.Normal

/-!
# The parts of a locator

A locator's text is cut at marks: at the first of a class of characters, or at the last at sign.
Each cut is said by what it leaves on both sides, so that a text put together of its parts is cut
into them again, and a text that is read is made of the parts read from it.

* `spanUntil_eq_iff`, `splitUser_eq`, `splitPort_eq_iff`: the cuts.
* `readScheme_eq_some_iff`, `readDigits_eq_some_iff`: schemes and ports.
* `significant_append`: the controls and blanks that do not count.
-/
namespace TrackerWire.Url

open Text

/-! ## The first of a class -/

theorem spanUntil_eq_iff {isEnd : Char → Bool} {text front rest : List Char} :
    spanUntil isEnd text = (front, rest) ↔ text = front ++ rest ∧
      (∀ c ∈ front, isEnd c = false) ∧ ∀ c ∈ rest.head?, isEnd c = true := by
  constructor
  · intro h
    obtain ⟨rfl, rfl⟩ := Prod.mk.inj h
    refine ⟨List.takeWhile_append_dropWhile.symm, fun c hc => ?_, fun c hc => ?_⟩
    · simpa using List.mem_takeWhile_imp hc
    · have hstop := List.head?_dropWhile_not (fun c => !isEnd c) text
      rw [hc] at hstop
      simpa using hstop
  · rintro ⟨rfl, hfront, hrest⟩
    have hkeep : ∀ c ∈ front, (!isEnd c) = true := fun c hc => by rw [hfront c hc]; rfl
    unfold spanUntil
    rw [List.takeWhile_append_of_pos hkeep, List.dropWhile_append_of_pos hkeep]
    cases rest with
    | nil => rw [List.takeWhile_nil, List.dropWhile_nil, List.append_nil]
    | cons c rest => simp [hrest c rfl]

theorem spanUntil_append {isEnd : Char → Bool} {front : List Char} (rest : List Char)
    (h : ∀ c ∈ front, isEnd c = false) : spanUntil isEnd (front ++ rest) =
      (front ++ (spanUntil isEnd rest).1, (spanUntil isEnd rest).2) := by
  obtain ⟨heq, hfirst, hend⟩ := spanUntil_eq_iff.mp (Prod.mk.eta (p := spanUntil isEnd rest)).symm
  refine spanUntil_eq_iff.mpr ⟨?_, List.forall_mem_append.mpr ⟨h, hfirst⟩, hend⟩
  rw [List.append_assoc, ← heq]

theorem head_spanUntil {isEnd : Char → Bool} {text : List Char} {c : Char}
    (h : c ∈ (spanUntil isEnd text).1.head?) : c ∈ text.head? ∧ isEnd c = false := by
  obtain ⟨heq, hfirst, -⟩ := spanUntil_eq_iff.mp (Prod.mk.eta (p := spanUntil isEnd text)).symm
  refine ⟨?_, hfirst c (List.mem_of_mem_head? h)⟩
  rw [heq, List.head?_append, Option.mem_def.mp h]
  rfl

/-- A mark ends what has none of it. -/
theorem spanUntil_mark {mark : Char} {text front rest : List Char} :
    spanUntil (· = mark) text = (front, mark :: rest) ↔
      text = front ++ mark :: rest ∧ mark ∉ front := by
  refine spanUntil_eq_iff.trans (and_congr_right fun _ => ?_)
  simp only [decide_eq_false_iff_not, List.head?_cons, Option.mem_def, Option.some.injEq,
    forall_eq', decide_true, and_true]
  exact ⟨fun h hmem => h mark hmem rfl, fun h c hc heq => h (heq ▸ hc)⟩

/-! ## The last at sign -/

/-- A user's part is empty, or what the last at sign ends. -/
theorem splitUser_eq (text : List Char) : ∃ front, text = front ++ (splitUser text).2 ∧
    (front = [] ∨ front = (splitUser text).1 ++ ['@']) ∧ '@' ∉ (splitUser text).2 := by
  unfold splitUser
  generalize hspan : spanUntil (· = '@') text.reverse = span
  obtain ⟨host, user⟩ := span
  obtain ⟨heq, hhost, hmark⟩ := spanUntil_eq_iff.mp hspan
  rw [List.reverse_eq_iff, List.reverse_append] at heq
  have hnone : '@' ∉ host.reverse := fun h => by simpa using hhost _ (List.mem_reverse.mp h)
  cases user with
  | nil =>
    rw [List.reverse_nil, List.nil_append] at heq
    exact ⟨[], rfl, .inl rfl, heq ▸ hnone⟩
  | cons mark user =>
    obtain rfl : mark = '@' := by simpa using hmark mark rfl
    exact ⟨user.reverse ++ ['@'], heq.trans (by rw [List.reverse_cons]; rfl), .inr rfl, hnone⟩

theorem splitUser_append {front rest : List Char} (hrest : '@' ∉ rest)
    (hfront : front = [] ∨ ∃ user, front = user ++ ['@']) :
    (splitUser (front ++ rest)).2 = rest := by
  have hnot : ∀ c ∈ rest.reverse, decide (c = '@') = false := fun c hc =>
    decide_eq_false fun h => hrest (h ▸ List.mem_reverse.mp hc)
  unfold splitUser
  rcases hfront with rfl | ⟨user, rfl⟩
  · have hspan : spanUntil (· = '@') ([] ++ rest).reverse = (rest.reverse, []) :=
      spanUntil_eq_iff.mpr ⟨(List.append_nil _).symm, hnot, nofun⟩
    rw [hspan]
    rfl
  · have hspan : spanUntil (· = '@') (user ++ ['@'] ++ rest).reverse =
        (rest.reverse, '@' :: user.reverse) := by
      refine spanUntil_eq_iff.mpr ⟨?_, hnot, fun c hc => ?_⟩
      · simp only [List.reverse_append, List.reverse_cons, List.reverse_nil, List.nil_append,
          List.singleton_append]
      · exact decide_eq_true (Option.some.inj hc).symm
    rw [hspan]
    exact List.reverse_reverse rest

/-! ## The colon in front of a port -/

/-- Text that stands for a host in front of a port: without a colon, unless it stands in
brackets. -/
inductive HostText : List Char → Prop where
  | plain {host : List Char} (hbracket : host.head? ≠ some '[') (hcolon : ':' ∉ host) :
    HostText host
  | bracketed {inner tail : List Char} (hinner : ']' ∉ inner) (htail : ':' ∉ tail) :
    HostText ('[' :: (inner ++ ']' :: tail))

theorem splitPort_bracket (more : List Char) : splitPort ('[' :: more) =
    ((spanUntil (· = ']') ('[' :: more)).1 ++
      (spanUntil (· = ':') (spanUntil (· = ']') ('[' :: more)).2).1,
      (spanUntil (· = ':') (spanUntil (· = ']') ('[' :: more)).2).2) := rfl

theorem splitPort_plain {text : List Char} (h : text.head? ≠ some '[') :
    splitPort text = spanUntil (· = ':') text := by
  unfold splitPort
  split
  · exact absurd rfl h
  · rfl

theorem head_splitPort (text : List Char) : ∀ c ∈ (splitPort text).2.head?, c = ':' := by
  intro c hc
  unfold splitPort at hc
  split at hc <;> exact of_decide_eq_true ((spanUntil_eq_iff.mp Prod.mk.eta.symm).2.2 c hc)

/-- In brackets, the colon comes behind the first bracket that closes. -/
theorem bracketed_of_splitPort {more host port : List Char}
    (h : splitPort ('[' :: more) = (host, ':' :: port)) :
    '[' :: more = host ++ ':' :: port ∧ HostText host := by
  rw [splitPort_bracket] at h
  generalize hspan : spanUntil (· = ']') ('[' :: more) = span at h
  obtain ⟨address, rest⟩ := span
  obtain ⟨heq, hinner, hmark⟩ := spanUntil_eq_iff.mp hspan
  generalize hspan' : spanUntil (· = ':') rest = span' at h
  obtain ⟨tail, port'⟩ := span'
  obtain ⟨rfl, rfl⟩ := Prod.mk.inj h
  obtain ⟨rfl, htail⟩ := spanUntil_mark.mp hspan'
  refine ⟨heq.trans (List.append_assoc _ _ _).symm, ?_⟩
  -- what is behind the address starts with the bracket that ends it, not with the colon
  cases tail with
  | nil => exact absurd (hmark ':' rfl) (by decide)
  | cons last tail =>
    obtain rfl : last = ']' := by simpa using hmark last rfl
    cases address with
    | nil => exact absurd (List.cons.inj heq).1 (by decide)
    | cons first inner =>
      obtain ⟨rfl, -⟩ := List.cons.inj heq
      exact .bracketed (fun hmem => by simpa using hinner _ (List.mem_cons_of_mem _ hmem))
        (List.not_mem_of_not_mem_cons htail)

theorem splitPort_hostText {host : List Char} (h : HostText host) (port : List Char) :
    splitPort (host ++ ':' :: port) = (host, ':' :: port) := by
  cases h with
  | plain hbracket hcolon =>
    rw [splitPort_plain, spanUntil_mark]
    · exact ⟨rfl, hcolon⟩
    · cases host with
      | nil => exact fun h => absurd (Option.some.inj h) (by decide)
      | cons c host => exact hbracket
  | @bracketed inner tail hinner htail =>
    have haddress : spanUntil (· = ']') ('[' :: (inner ++ ']' :: tail ++ ':' :: port)) =
        ('[' :: inner, ']' :: (tail ++ ':' :: port)) :=
      spanUntil_mark.mpr ⟨by simp only [List.cons_append, List.append_assoc],
        List.not_mem_cons_of_ne_of_not_mem (by decide) hinner⟩
    have htail' : spanUntil (· = ':') (']' :: (tail ++ ':' :: port)) =
        (']' :: tail, ':' :: port) :=
      spanUntil_mark.mpr ⟨rfl, List.not_mem_cons_of_ne_of_not_mem (by decide) htail⟩
    rw [List.cons_append, splitPort_bracket, haddress, htail']
    rfl

theorem splitPort_eq_iff {text host port : List Char} :
    splitPort text = (host, ':' :: port) ↔ text = host ++ ':' :: port ∧ HostText host := by
  constructor
  · intro h
    by_cases hbracket : text.head? = some '['
    · obtain ⟨more, rfl⟩ := List.head?_eq_some_iff.mp hbracket
      exact bracketed_of_splitPort h
    · rw [splitPort_plain hbracket] at h
      obtain ⟨rfl, hcolon⟩ := spanUntil_mark.mp h
      refine ⟨rfl, .plain (fun h => hbracket ?_) hcolon⟩
      rw [List.head?_append, h]
      rfl
  · rintro ⟨rfl, hhost⟩
    exact splitPort_hostText hhost port

/-! ## Ports -/

theorem takeDigits_all {isDigit : Char → Bool} {digits : List Char}
    (h : ∀ c ∈ digits, isDigit c = true) :
    IpAddress.takeDigits isDigit digits.length digits = (digits, []) := by
  induction digits with
  | nil => rfl
  | cons c digits ih =>
    obtain ⟨hc, hdigits⟩ := List.forall_mem_cons.mp h
    rw [List.length_cons, IpAddress.takeDigits, if_pos hc, ih hdigits]

theorem readDecimal_all {limit : Nat} {digits : List Char} (hne : digits ≠ [])
    (h : ∀ c ∈ digits, c.isDigit = true) : IpAddress.readDecimal digits.length limit digits =
      if IpAddress.digitsValue 10 digits ≤ limit then some (IpAddress.digitsValue 10 digits, [])
      else none := by
  have htake : IpAddress.takeDigits IpAddress.isDecimal digits.length digits = (digits, []) :=
    takeDigits_all h
  obtain ⟨c, others, rfl⟩ := List.exists_cons_of_ne_nil hne
  unfold IpAddress.readDecimal
  rw [htake]

/-- A port is the value of its digits, if that is below two to the sixteenth. -/
theorem readDigits_eq_some_iff {chars start : List Char} {port : Nat} :
    readDigits chars = some (some port, start) ↔ ∃ digits, chars = digits ++ start ∧
      digits ≠ [] ∧ (∀ c ∈ digits, c.isDigit = true) ∧ (∀ c ∈ start.head?, c = '\\') ∧
      port = IpAddress.digitsValue 10 digits ∧ port ≤ 65535 := by
  constructor
  · intro h
    unfold readDigits at h
    generalize hspan : spanUntil (fun c => !c.isDigit) chars = span at h
    obtain ⟨digits, rest⟩ := span
    obtain ⟨rfl, hdigits, -⟩ := spanUntil_eq_iff.mp hspan
    replace hdigits : ∀ c ∈ digits, c.isDigit = true := fun c hc => by simpa using hdigits c hc
    dsimp only at h
    split at h
    · cases h
    · rename_i hmark
      split at h
      · cases h
      · rename_i hne
        rw [readDecimal_all hne hdigits] at h
        split at h
        · rename_i hle
          cases h
          refine ⟨digits, rfl, hne, hdigits, fun c hc => ?_, rfl, hle⟩
          rw [Option.mem_def.mp hc] at hmark
          simpa using hmark
        · cases h
  · rintro ⟨digits, rfl, hne, hdigits, hstart, rfl, hle⟩
    have hspan : spanUntil (fun c => !c.isDigit) (digits ++ start) = (digits, start) := by
      refine spanUntil_eq_iff.mpr ⟨rfl, fun c hc => by rw [hdigits c hc]; rfl, fun c hc => ?_⟩
      rw [hstart c hc]
      rfl
    unfold readDigits
    rw [hspan]
    dsimp only
    rw [if_neg, if_neg hne, readDecimal_all hne hdigits, if_pos hle]
    · rfl
    · cases start with
      | nil => exact nofun
      | cons c start => simp [hstart c rfl]

theorem digitsValue_toDigits (n : Nat) : IpAddress.digitsValue 10 (Nat.toDigits 10 n) = n := by
  have hvalue : ∀ digit < 10,
      (Ascii.hexValue? (Nat.digitChar digit).toUInt8).getD 0 = digit := by decide
  induction n using Nat.strongRecOn with
  | ind n ih =>
    rw [Nat.toDigits_eq_if (by decide)]
    split
    · exact (Nat.zero_add _).trans (hvalue n (by assumption))
    · have hfront := ih (n / 10) (by omega)
      unfold IpAddress.digitsValue at hfront ⊢
      rw [List.foldl_append, hfront, List.foldl_cons, List.foldl_nil, hvalue _ (by omega)]
      omega

/-! ## Schemes -/

/-- Text of a scheme: a letter, then letters, digits, plus, minus or point. -/
structure SchemeText (scheme : List Char) : Prop where
  starts : ∃ c ∈ scheme.head?, c.isAlpha = true
  only : ∀ c ∈ scheme, c.isAlphanum = true ∨ c = '+' ∨ c = '-' ∨ c = '.'

theorem schemeText_cons {first : Char} {others : List Char} :
    SchemeText (first :: others) ↔ (first.isAlpha &&
      others.all fun c => c.isAlphanum || c = '+' || c = '-' || c = '.') = true := by
  simp only [Bool.and_eq_true, List.all_eq_true, Bool.or_eq_true, decide_eq_true_eq, or_assoc]
  constructor
  · rintro ⟨⟨c, hc, halpha⟩, honly⟩
    exact ⟨Option.some.inj hc ▸ halpha, (List.forall_mem_cons.mp honly).2⟩
  · rintro ⟨halpha, hothers⟩
    exact ⟨⟨first, rfl, halpha⟩, List.forall_mem_cons.mpr
      ⟨.inl (Bool.or_eq_true_iff.mpr (.inl halpha)), hothers⟩⟩

theorem toNat_of_isAlpha {c : Char} (h : c.isAlpha = true) : 65 ≤ c.toNat ∧ c.toNat ≤ 122 := by
  rcases Bool.or_eq_true_iff.mp h with hcase | hcase
  · have hupper : c.val ≥ 'A'.val ∧ c.val ≤ 'Z'.val := of_decide_eq_true hcase
    have hfirst : 65 ≤ c.toNat := UInt32.le_iff_toNat_le.mp hupper.1
    have hlast : c.toNat ≤ 90 := UInt32.le_iff_toNat_le.mp hupper.2
    omega
  · have hlower := Bool.and_eq_true_iff.mp (show (c.val ≥ 'a'.val && c.val ≤ 'z'.val) from hcase)
    have hfirst : 97 ≤ c.toNat := UInt32.le_iff_toNat_le.mp (of_decide_eq_true hlower.1)
    have hlast : c.toNat ≤ 122 := UInt32.le_iff_toNat_le.mp (of_decide_eq_true hlower.2)
    omega

theorem SchemeText.bounds {shown : List Char} (h : SchemeText shown) :
    ∀ c ∈ shown, 0x20 < c.toNat ∧ c.toNat ≤ 0x7E := by
  intro c hc
  rcases h.only c hc with halnum | rfl | rfl | rfl
  · rcases Bool.or_eq_true_iff.mp halnum with halpha | hdigit
    · have hletter := toNat_of_isAlpha halpha
      omega
    · have hdigit : 48 ≤ c.toNat ∧ c.toNat ≤ 57 := Char.isDigit_iff_toNat.mp hdigit
      omega
  all_goals decide

/-- **A scheme shows**, in lower case too. -/
theorem SchemeText.visible {shown : List Char} (h : SchemeText shown) :
    Visible (String.ofList (shown.map Char.toLower)) := by
  have hlower : ∀ n < 0x7F, 0x20 < n → Text.isControl (Char.ofNat n).toLower = false := by decide
  refine visible_ofList.mpr fun c hc => ?_
  obtain ⟨x, hx, rfl⟩ := List.mem_map.mp hc
  have hbounds := h.bounds x hx
  rw [← Char.ofNat_toNat x]
  exact hlower _ (by omega) hbounds.1

/-- A scheme is read in lower case, whatever stands behind its colon. -/
theorem readScheme_eq_some_iff {chars rest : List Char} {scheme : String} :
    readScheme chars = some (scheme, rest) ↔ ∃ shown, chars = shown ++ ':' :: rest ∧
      SchemeText shown ∧ scheme = String.ofList (shown.map Char.toLower) := by
  constructor
  · intro h
    unfold readScheme at h
    generalize hspan : spanUntil (· = ':') chars = span at h
    obtain ⟨shown, behind⟩ := span
    obtain ⟨rfl, -, hmark⟩ := spanUntil_eq_iff.mp hspan
    dsimp only at h
    split at h
    · rename_i first others mark behind
      split at h
      · rename_i hscheme
        cases h
        obtain rfl : mark = ':' := by simpa using hmark mark rfl
        exact ⟨first :: others, rfl, schemeText_cons.mpr hscheme, rfl⟩
      · cases h
    · cases h
  · rintro ⟨shown, rfl, hshown, rfl⟩
    have hcolon : ':' ∉ shown := fun h => absurd (hshown.only ':' h) (by decide)
    have hspan : spanUntil (· = ':') (shown ++ ':' :: rest) = (shown, ':' :: rest) :=
      spanUntil_mark.mpr ⟨rfl, hcolon⟩
    cases shown with
    | nil => exact absurd hshown.starts nofun
    | cons first others =>
      unfold readScheme
      rw [hspan]
      dsimp only
      rw [if_pos (schemeText_cons.mp hshown)]

/-! ## Authorities -/

/-- Does the character end the authority? -/
def EndsAuthority (c : Char) : Prop := c = '/' ∨ c = '?' ∨ c = '#'

/-- What stands between two slashes and the mark that ends it is read as the authority. -/
theorem ofRest?_authority (scheme : String) {authority tail : List Char}
    (hauthority : ∀ c ∈ authority, ¬EndsAuthority c) (htail : ∀ c ∈ tail.head?, EndsAuthority c) :
    ∃ path query fragment, ofRest? scheme ('/' :: '/' :: (authority ++ tail)) =
      (readAuthority authority).map fun read => {
        scheme, authority := some read.1, path := readPath read.2 path, query, fragment } := by
  obtain ⟨inner, hinner⟩ : ∃ inner, (spanUntil (· = '#') tail).1 = inner := ⟨_, rfl⟩
  obtain ⟨place, hplace⟩ : ∃ place, (spanUntil (· = '?') inner).1 = place := ⟨_, rfl⟩
  have hmark : ∀ c ∈ place.head?, c = '/' := by
    intro c hc
    obtain ⟨hc, hquery⟩ := head_spanUntil (hplace.symm ▸ hc)
    obtain ⟨hc, hfragment⟩ := head_spanUntil (hinner.symm ▸ hc)
    exact (htail c hc).resolve_right
      (not_or.mpr ⟨of_decide_eq_false hquery, of_decide_eq_false hfragment⟩)
  have hslashes {x : Char} (hx : '/' ≠ x) (h : ∀ c ∈ authority, c ≠ x) :
      ∀ c ∈ '/' :: '/' :: authority, decide (c = x) = false := by
    have hne : ∀ c ∈ '/' :: '/' :: authority, c ≠ x :=
      List.forall_mem_cons.mpr ⟨hx, List.forall_mem_cons.mpr ⟨hx, h⟩⟩
    exact fun c hc => decide_eq_false (hne c hc)
  have hfragment := spanUntil_append tail
    (hslashes (by decide) fun c hc heq => hauthority c hc (.inr (.inr heq)))
  have hquery := spanUntil_append inner
    (hslashes (by decide) fun c hc heq => hauthority c hc (.inr (.inl heq)))
  have hpath : spanUntil (· = '/') (authority ++ place) = (authority, place) :=
    spanUntil_eq_iff.mpr ⟨rfl, fun c hc => decide_eq_false fun heq => hauthority c hc (.inl heq),
      fun c hc => decide_eq_true (hmark c hc)⟩
  simp only [List.cons_append, hinner, hplace] at hfragment hquery
  unfold ofRest?
  rw [hfragment]
  dsimp only
  rw [hquery]
  simp only [hpath]
  refine ⟨place, readMarked querySpecials (spanUntil (· = '?') inner).2,
    readMarked fragmentSpecials (spanUntil (· = '#') tail).2, ?_⟩
  cases readAuthority authority <;> rfl

/-- An authority stands between two slashes and the mark that ends it. -/
theorem authority_of_ofRest? {scheme : String} {rest : List Char} {url : Url}
    {read : String × String × Option Nat} (h : ofRest? scheme rest = some url)
    (hread : url.authority = some read) : ∃ authority tail start,
      rest = '/' :: '/' :: (authority ++ tail) ∧ (∀ c ∈ authority, ¬EndsAuthority c) ∧
      (∀ c ∈ tail.head?, EndsAuthority c) ∧ readAuthority authority = some (read, start) := by
  unfold ofRest? at h
  generalize hfragment : spanUntil (· = '#') rest = span at h
  obtain ⟨inner, fragment⟩ := span
  obtain ⟨rfl, hinner, hmark⟩ := spanUntil_eq_iff.mp hfragment
  dsimp only at h
  generalize hquery : spanUntil (· = '?') inner = span at h
  obtain ⟨place, query⟩ := span
  obtain ⟨rfl, hplace, hmark'⟩ := spanUntil_eq_iff.mp hquery
  dsimp only at h
  split at h
  · rename_i behind
    generalize hpath : spanUntil (· = '/') behind = span at h
    obtain ⟨authority, path⟩ := span
    obtain ⟨rfl, hslash, hmark''⟩ := spanUntil_eq_iff.mp hpath
    obtain ⟨⟨found, start⟩, hfound, h⟩ := Option.bind_eq_some_iff.mp h
    cases h
    cases hread
    refine ⟨authority, path ++ (query ++ fragment), start, ?_, fun c hc => ?_, ?_, hfound⟩
    · simp only [List.cons_append, List.append_assoc]
    · rintro (rfl | rfl | rfl)
      · exact absurd (hslash _ hc) (by decide)
      · exact absurd (hplace '?' (by simp [hc])) (by decide)
      · exact absurd (hinner '#' (by simp [hc])) (by decide)
    · intro c hc
      cases path with
      | cons mark path => exact .inl (of_decide_eq_true (hmark'' c hc))
      | nil =>
        cases query with
        | cons mark query => exact .inr (.inl (of_decide_eq_true (hmark' c hc)))
        | nil => exact .inr (.inr (of_decide_eq_true (hmark c hc)))
  · cases h
    cases hread
  · cases h
    cases hread

/-! ## Text that counts -/

theorem dropWhile_append_head {isEdge : Char → Bool} (front : List Char) {rest : List Char}
    (h : ∀ c ∈ rest.head?, isEdge c = false) :
    (front ++ rest).dropWhile isEdge = front.dropWhile isEdge ++ rest := by
  induction front with
  | nil =>
    cases rest with
    | nil => rfl
    | cons c rest => simp [h c rfl]
  | cons c front ih =>
    by_cases hc : isEdge c = true
    · simp [hc, ih]
    · simp [hc]

/-- What shows at the start of a text counts, and behind it what starts with the same
character. -/
theorem significant_append {front tail : List Char} (hne : front ≠ [])
    (hfront : ∀ c ∈ front, 0x20 < c.toNat) (htail : ∀ c ∈ tail.head?, 0x20 < c.toNat) :
    ∃ tail', significant (String.ofList (front ++ tail)) = front ++ tail' ∧
      tail'.head? = tail.head? := by
  have hedge {c : Char} (h : 0x20 < c.toNat) : decide (c.toNat ≤ 0x20) = false :=
    decide_eq_false (Nat.not_le.mpr h)
  have hcounts {c : Char} (h : 0x20 < c.toNat) : (c ≠ '\t' && c ≠ '\n' && c ≠ '\r') = true := by
    simp only [ne_eq, decide_not, Bool.and_eq_true, Bool.not_eq_true', decide_eq_false_iff_not]
    refine ⟨⟨?_, ?_⟩, ?_⟩ <;> rintro rfl <;> exact absurd h (by decide)
  have hstart : (front ++ tail).dropWhile (fun c => decide (c.toNat ≤ 0x20)) = front ++ tail := by
    refine dropWhile_append_head [] fun c hc => hedge ?_
    obtain ⟨first, others, rfl⟩ := List.exists_cons_of_ne_nil hne
    exact hfront c (List.mem_of_mem_head? hc)
  have hend : (tail.reverse ++ front.reverse).dropWhile (fun c => decide (c.toNat ≤ 0x20)) =
      tail.reverse.dropWhile (fun c => decide (c.toNat ≤ 0x20)) ++ front.reverse :=
    dropWhile_append_head _ fun c hc =>
      hedge (hfront c (List.mem_reverse.mp (List.mem_of_mem_head? hc)))
  unfold significant
  dsimp only
  rw [String.toList_ofList, hstart, List.reverse_append, hend, List.reverse_append,
    List.reverse_reverse, List.filter_append,
    List.filter_eq_self.mpr fun c hc => hcounts (hfront c hc)]
  refine ⟨_, rfl, ?_⟩
  cases tail with
  | nil => rfl
  | cons c tail =>
    have hc := htail c rfl
    rw [List.reverse_cons, dropWhile_append_head _ fun x hx => Option.some.inj hx ▸ hedge hc,
      List.reverse_append, List.reverse_singleton, List.singleton_append, List.filter_cons,
      if_pos (hcounts hc)]
    rfl

end TrackerWire.Url
