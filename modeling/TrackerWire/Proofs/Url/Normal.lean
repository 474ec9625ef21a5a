import TrackerWire.Proofs.Text.Visible
import TrackerWire.Url

/-!
# Locators in normal form

Whatever text a locator is read from, its own text has no control character: the parts of a
locator are percent-encoded where they are read, and its scheme is made of letters and digits
(`visible_text`). No segment of its path is a dot segment, so the path says the place without
another look at it (`noDots_resolve`).
-/
namespace TrackerWire.Url

open Text

/-! ## Dot segments -/

theorem noDots_above {seen : List (List Char)}
    (h : ∀ segment ∈ seen, isDot segment = false ∧ isDotDot segment = false) :
    ∀ segment ∈ above seen, isDot segment = false ∧ isDotDot segment = false := by
  cases seen with
  | nil => exact h
  | cons segment others =>
    rw [above]
    split
    · exact h
    · exact (List.forall_mem_cons.mp h).2

/-- **No segment of a path is a dot segment**, for the place itself or the one above. -/
theorem noDots_resolve {seen : List (List Char)} (segments : List (List Char))
    (h : ∀ segment ∈ seen, isDot segment = false ∧ isDotDot segment = false) :
    ∀ segment ∈ resolve seen segments, isDot segment = false ∧ isDotDot segment = false := by
  have hempty : isDot [] = false ∧ isDotDot [] = false := by decide
  induction segments generalizing seen with
  | nil => exact fun segment hsegment => h segment (List.mem_reverse.mp hsegment)
  | cons first rest ih =>
    rw [resolve]
    split
    · split
      · exact ih (List.forall_mem_cons.mpr ⟨hempty, noDots_above h⟩)
      · exact ih (noDots_above h)
    · split
      · split
        · exact ih (List.forall_mem_cons.mpr ⟨hempty, h⟩)
        · exact ih h
      · rename_i hdotdot hdot
        exact ih (List.forall_mem_cons.mpr
          ⟨⟨Bool.eq_false_iff.mpr hdot, Bool.eq_false_iff.mpr hdotdot⟩, h⟩)

/-! ## Percent-encoding -/

theorem allShow_percent (b : UInt8) : AllShow (percent b) := by
  have hupper : ∀ digit < 16, Text.isControl (Nat.digitChar digit).toUpper = false := by decide
  have hb := b.toNat_lt
  exact allShow_cons.mpr ⟨rfl, allShow_cons.mpr ⟨hupper _ (by omega),
    allShow_cons.mpr ⟨hupper _ (by omega), allShow_nil⟩⟩⟩

/-- **What is encoded shows.** -/
theorem visible_encode (special text : List Char) : Visible (encode special text) := by
  refine visible_ofList.mpr (allShow_flatMap fun c _ => ?_)
  split
  · exact allShow_flatMap fun b _ => allShow_percent b
  · rename_i hplain
    refine allShow_cons.mpr ⟨?_, allShow_nil⟩
    have hc : isControl c = false := by
      rw [Bool.or_eq_true, not_or] at hplain
      exact Bool.eq_false_iff.mpr hplain.1
    simp only [isControl, Bool.or_eq_false_iff, decide_eq_false_iff_not] at hc
    simp only [Text.isControl, Bool.or_eq_false_iff, Bool.and_eq_false_iff,
      decide_eq_false_iff_not]
    omega

theorem encode_eq_self {special text : List Char}
    (h : ∀ c ∈ text, isControl c = false ∧ c ∉ special) :
    encode special text = String.ofList text := by
  unfold encode
  induction text with
  | nil => rfl
  | cons c text ih =>
    obtain ⟨⟨hcontrol, hspecial⟩, htext⟩ := List.forall_mem_cons.mp h
    have hplain : ¬(isControl c || special.contains c) = true := by simp [hcontrol, hspecial]
    rw [List.flatMap_cons, if_neg hplain, String.ofList_append, ih htext, ← String.ofList_append]
    rfl

theorem visible_absolutePath (text : List Char) : Visible (absolutePath text) :=
  visible_join fun segment _ => visible_append.mpr ⟨by decide, visible_encode _ segment⟩

theorem visible_readPath (start rest : List Char) : Visible (readPath start rest) := by
  unfold readPath
  split
  · decide
  · exact visible_absolutePath _
  · exact visible_absolutePath _

theorem visible_userText (text : List Char) : Visible (userText text) := by
  unfold userText
  refine visible_append.mpr ⟨visible_encode _ _, ?_⟩
  split
  · decide
  · exact visible_append.mpr ⟨by decide, visible_encode _ _⟩

theorem visible_readMarked (special text : List Char) :
    ∀ part ∈ readMarked special text, Visible part := by
  unfold readMarked
  split
  · exact nofun
  · exact fun part h => Option.some.inj h ▸ visible_encode _ _

/-! ## Hosts -/

theorem visible_compressed (groups : List UInt16) : Visible (IpAddress.compressed groups) := by
  have hgroups (groups : List UInt16) : Visible (IpAddress.groupsText groups) := by
    refine visible_intercalate (by decide) fun s hs => ?_
    obtain ⟨g, -, rfl⟩ := List.mem_map.mp hs
    exact visible_ofList.mpr (allShow_toDigits (by decide) (by decide) _)
  unfold IpAddress.compressed
  dsimp only
  split
  · exact visible_append.mpr ⟨visible_append.mpr ⟨hgroups _, by decide⟩, hgroups _⟩
  · exact hgroups _

theorem visible_readHost {text : List Char} {host : String} (h : readHost text = some host) :
    Visible host := by
  unfold readHost at h
  split at h
  · split at h
    · cases h
      exact visible_append.mpr ⟨visible_append.mpr ⟨by decide, visible_compressed _⟩, by decide⟩
    · cases h
  · split at h
    · cases h
    · cases h
      exact visible_encode _ _

/-! ## Locators -/

/-- No part of the locator has a control character. -/
structure Shows (url : Url) : Prop where
  scheme : Visible url.scheme
  authority : ∀ user host port, url.authority = some (user, host, port) →
    Visible user ∧ Visible host
  path : Visible url.path
  query : ∀ part ∈ url.query, Visible part
  fragment : ∀ part ∈ url.fragment, Visible part

theorem visible_marked {mark : String} (hmark : Visible mark) {part : Option String}
    (h : ∀ s ∈ part, Visible s) : Visible (marked mark part) := by
  cases part with
  | none => exact allShow_nil
  | some s => exact visible_append.mpr ⟨hmark, h s rfl⟩

theorem Shows.visible_text {url : Url} (h : url.Shows) : Visible url.text := by
  unfold text
  refine visible_append.mpr ⟨visible_append.mpr ⟨visible_append.mpr ⟨visible_append.mpr
    ⟨visible_append.mpr ⟨h.scheme, by decide⟩, ?_⟩, h.path⟩,
    visible_marked (by decide) h.query⟩, visible_marked (by decide) h.fragment⟩
  split
  · rename_i user host port hauthority
    obtain ⟨huser, hhost⟩ := h.authority user host port hauthority
    refine visible_append.mpr ⟨visible_append.mpr ⟨visible_append.mpr ⟨by decide, ?_⟩, hhost⟩,
      visible_marked (by decide) fun s hs => ?_⟩
    · split
      · decide
      · exact visible_append.mpr ⟨huser, by decide⟩
    · obtain ⟨n, -, rfl⟩ := Option.map_eq_some_iff.mp hs
      exact visible_nat n
  · split <;> decide

/-! ## Reading -/

theorem readDecimal_le {most limit n : Nat} {text rest : List Char}
    (h : IpAddress.readDecimal most limit text = some (n, rest)) : n ≤ limit := by
  unfold IpAddress.readDecimal at h
  split at h
  · cases h
  · dsimp only at h
    split at h
    · cases h
      assumption
    · cases h

theorem readPort_le {text start : List Char} {port : Option Nat}
    (h : readPort text = some (port, start)) : ∀ n ∈ port, n ≤ 65535 := by
  unfold readPort at h
  split at h
  · cases h
    exact nofun
  · unfold readDigits at h
    dsimp only at h
    split at h
    · cases h
    · split at h
      · cases h
        exact nofun
      · obtain ⟨read, hread, heq⟩ := Option.map_eq_some_iff.mp h
        cases heq
        exact fun n hn => Option.some.inj hn ▸ readDecimal_le hread

/-- An authority is a user's part, a host and perhaps a port below two to the sixteenth. -/
theorem shows_readAuthority {text start : List Char} {user host : String} {port : Option Nat}
    (h : readAuthority text = some ((user, host, port), start)) :
    Visible user ∧ Visible host ∧ ∀ n ∈ port, n ≤ 65535 := by
  unfold readAuthority at h
  dsimp only at h
  split at h
  · cases h
  · obtain ⟨shown, hhost, h⟩ := Option.bind_eq_some_iff.mp h
    obtain ⟨⟨number, path⟩, hport, h⟩ := Option.bind_eq_some_iff.mp h
    cases h
    exact ⟨visible_userText _, visible_readHost hhost, readPort_le hport⟩

theorem ofRest?_shows {scheme : String} {rest : List Char} {url : Url} (hscheme : Visible scheme)
    (h : ofRest? scheme rest = some url) : url.Shows ∧ url.scheme = scheme ∧
      ∀ n ∈ url.port?, n ≤ 65535 := by
  unfold ofRest? at h
  dsimp only at h
  split at h
  · obtain ⟨⟨⟨user, host, port⟩, start⟩, hauthority, h⟩ := Option.bind_eq_some_iff.mp h
    cases h
    obtain ⟨huser, hhost, hport⟩ := shows_readAuthority hauthority
    exact ⟨⟨hscheme, fun _ _ _ heq => by cases heq; exact ⟨huser, hhost⟩, visible_readPath _ _,
      visible_readMarked _ _, visible_readMarked _ _⟩, rfl, hport⟩
  · cases h
    exact ⟨⟨hscheme, nofun, visible_absolutePath _, visible_readMarked _ _,
      visible_readMarked _ _⟩, rfl, nofun⟩
  · cases h
    exact ⟨⟨hscheme, nofun, visible_encode _ _, visible_readMarked _ _,
      visible_readMarked _ _⟩, rfl, nofun⟩

end TrackerWire.Url
