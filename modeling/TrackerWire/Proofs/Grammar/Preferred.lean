import TrackerWire.Proofs.Grammar.FirstMatch
import TrackerWire.Proofs.Text.Utf8

/-!
# Composed texts

A composed text is matched as it was meant when no slot could have taken more than its own part:
then the reading that the search lists first is the one that was meant, and nothing is ever taken
back. `Slot.Prefers block text after texts alternatives` says so of a block: in front of `after`
its first reading is `text`, which captures `texts`. `Slot.Refuses block after` says that the block
has no reading there.

* `Prefers.append`: what two blocks prefer, one behind the other.
* `Prefers.taken`, `Prefers.omitted`, `Prefers.either`: choices, made as they were meant.
* `parse_prefers`: a sentence that is preferred as a whole is matched, with these captures.
-/
namespace TrackerWire

namespace Token

/-- In front of `after`, the first text the token offers is this one. -/
def Prefers (token : Token) (text after : Bytes) : Prop :=
  (token.lengths (text ++ after)).head? = some text.length

theorem prefers_of_longest {token : Token} {text after : Bytes} (h : token.Accepts text)
    (hlongest : ∀ n ∈ token.lengths (text ++ after), n ≤ text.length) :
    token.Prefers text after := by
  have hmem : text.length ∈ token.lengths (text ++ after) :=
    (mem_lengths token _ _).mpr ⟨text, after, rfl, rfl, h⟩
  have hdescend := token.lengths_descend (text ++ after)
  unfold Prefers
  cases hlist : token.lengths (text ++ after) with
  | nil => rw [hlist] at hmem; cases hmem
  | cons n others =>
    rw [hlist] at hmem hlongest hdescend
    have hn := hlongest n List.mem_cons_self
    rcases List.mem_cons.mp hmem with heq | hmem
    · rw [heq]; rfl
    · exact absurd (List.rel_of_pairwise_cons hdescend hmem) (Nat.not_lt_of_le hn)

theorem prefers_of_bound {token : Token} {text : Bytes} (h : token.Accepts text)
    (hbound : ∀ other, token.Accepts other → other.length ≤ text.length) (after : Bytes) :
    token.Prefers text after := by
  refine prefers_of_longest h fun n hn => ?_
  obtain ⟨other, -, -, rfl, hother⟩ := (mem_lengths token _ _).mp hn
  exact hbound other hother

/-- The bytes that may stand in a text of a token. -/
def alphabet : Token → UInt8 → Bool
  | digits _ _, b => Ascii.isDigit b
  | hex _ _, b => Ascii.isHexDigit b
  | decimal, b => Ascii.isDigit b || b == Ascii.point
  | number, b => Ascii.isDigit b || b == Ascii.point
  | coordinate, b => Ascii.isDigit b || b == Ascii.point
  | signedInteger, b => Ascii.isDigit b || b == Ascii.minus
  | signedNumber, b => Ascii.isDigit b || b == Ascii.point || b == Ascii.minus
  | oneOf set, b => set.contains b
  | noneOf set, b => !set.contains b
  | rest, b => inLine b

theorem allOf_pointed {whole fraction : Bytes} (hwhole : AllOf Ascii.isDigit whole)
    (hfraction : AllOf Ascii.isDigit fraction) :
    AllOf (fun b => Ascii.isDigit b || b == Ascii.point)
      (whole ++ Ascii.point :: fraction) := by
  intro b hb
  rcases List.mem_append.mp hb with hb | hb
  · simp [hwhole b hb]
  · rcases List.mem_cons.mp hb with rfl | hb
    · simp
    · simp [hfraction b hb]

theorem allOf_number {text : Bytes} (h : IsNumber text) :
    AllOf (fun b => Ascii.isDigit b || b == Ascii.point) text := by
  rcases h with h | ⟨whole, fraction, rfl, hwhole, hfraction⟩
  · intro b hb; simp [h.1 b hb]
  · exact allOf_pointed hwhole.1 hfraction

theorem allOf_signed {language : Bytes → Prop} {p : UInt8 → Bool}
    (hp : ∀ text, language text → AllOf p text) {text : Bytes} (h : IsSigned language text) :
    AllOf (fun b => p b || b == Ascii.minus) text := by
  intro b hb
  rcases h with h | ⟨unsigned, rfl, h⟩
  · simp [hp text h b hb]
  · rcases List.mem_cons.mp hb with rfl | hb
    · simp
    · simp [hp unsigned h b hb]

theorem allOf_alphabet {token : Token} {text : Bytes} (h : token.Accepts text) :
    AllOf token.alphabet text := by
  cases token with
  | digits min max => exact h.1
  | hex min max => exact h.1
  | decimal =>
    obtain ⟨_, _, rfl, hwhole, -, hfraction, -⟩ := h; exact allOf_pointed hwhole hfraction
  | number => exact allOf_number h
  | signedInteger => exact allOf_signed (fun _ h => h.1) h
  | signedNumber => exact allOf_signed (fun _ h => allOf_number h) h
  | coordinate =>
    obtain ⟨_, _, rfl, hwhole, -, hfraction, -⟩ := h; exact allOf_pointed hwhole hfraction
  | oneOf set =>
    obtain ⟨c, rfl, hc⟩ := h
    intro b hb
    rw [List.mem_singleton.mp hb]
    exact List.contains_iff_mem.mpr hc
  | noneOf set => intro b hb; simp [alphabet, h b hb]
  | rest => intro b hb; simp [alphabet, inLine, h b hb]

/-- What follows starts with none of the token's bytes. -/
def Stops (token : Token) (after : Bytes) : Prop := ∀ b ∈ after.head?, token.alphabet b = false

theorem stops_cons {token : Token} {b : UInt8} (h : token.alphabet b = false) (after : Bytes) :
    token.Stops (b :: after) := by
  intro x hx
  cases hx
  exact h

theorem length_le_of_stops {token : Token} {text after : Bytes} (hstops : token.Stops after)
    {n : Nat} (hn : n ∈ token.lengths (text ++ after)) : n ≤ text.length := by
  obtain ⟨other, beyond, hin, rfl, hother⟩ := (mem_lengths token _ _).mp hn
  refine Nat.le_of_not_lt fun hlonger => ?_
  obtain ⟨more, rfl⟩ : ∃ more, other = text ++ more :=
    (List.prefix_of_prefix_length_le ⟨after, rfl⟩ ⟨beyond, hin.symm⟩ (by omega)).imp
      fun _ h => h.symm
  rw [List.append_assoc] at hin
  cases more with
  | nil => simp at hlonger
  | cons b more =>
    rw [List.append_cancel_left hin] at hstops
    exact absurd (allOf_alphabet hother b (by simp)) (by simp [hstops b rfl])

/-- Where a token stops, it has taken all of its text. -/
theorem prefers_of_stops {token : Token} {text after : Bytes} (h : token.Accepts text)
    (hstops : token.Stops after) : token.Prefers text after :=
  prefers_of_longest h fun _ hn => length_le_of_stops hstops hn

/-- Where a token stops too early, none of its texts stands. -/
theorem lengths_of_stops {token : Token} (text : Bytes) {after : Bytes}
    (hstops : token.Stops after)
    (hlong : ∀ other, token.Accepts other → text.length < other.length) :
    token.lengths (text ++ after) = [] := by
  rw [List.eq_nil_iff_forall_not_mem]
  intro n hn
  have hle := length_le_of_stops hstops hn
  obtain ⟨other, -, -, rfl, hother⟩ := (mem_lengths token _ _).mp hn
  exact absurd (hlong other hother) (Nat.not_lt_of_le hle)

end Token

/-! ## The texts of a reading -/

/-- The bytes of a span that starts and ends between characters. -/
def Span.cut? (input : Bytes) (span : Span) : Option Bytes :=
  if Utf8.isBoundary input span.start && Utf8.isBoundary input span.stop then
    some ((input.drop span.start).take (span.stop - span.start))
  else none

def Reading.texts (input : Bytes) (r : Reading) : List (Option Bytes) :=
  r.groups.map fun span => span.bind (Span.cut? input)

theorem Reading.texts_append (input : Bytes) (r s : Reading) :
    (r ++ s).texts input = r.texts input ++ s.texts input := List.map_append

theorem Reading.texts_blank {r : Reading} (h : r.Blank) (input : Bytes) :
    r.texts input = List.replicate r.tally.groups none := by
  have hgroups : r.groups = List.replicate r.tally.groups none := congrArg Marks.groups h
  unfold texts
  rw [hgroups, List.map_replicate]
  rfl

theorem cut?_middle (before : Bytes) {text after : Bytes} (htext : Utf8.Aligned text)
    (hafter : Utf8.Aligned after) :
    Span.cut? (before ++ (text ++ after)) ⟨before.length, before.length + text.length⟩ =
      some text := by
  have hstart := Utf8.isBoundary_aligned before (Utf8.aligned_append htext hafter)
  have hstop := Utf8.isBoundary_aligned (before ++ text) hafter
  rw [List.append_assoc, List.length_append] at hstop
  simp only [Span.cut?, hstart, hstop, Bool.and_self, if_true, List.drop_left,
    Nat.add_sub_cancel_left, List.take_left]

/-! ## What a block prefers -/

/-- In front of `after` the block has no reading. -/
def Slot.Refuses (block : List Slot) (after : Bytes) : Prop :=
  ∀ before, Slot.readingsBlock (before ++ after) block before.length = []

/-- In front of `after` the block's first reading is `text`, with what it captures and the
alternatives it takes. -/
structure Slot.Prefers (block : List Slot) (text after : Bytes) (texts : List (Option Bytes))
    (alternatives : List (Option Nat)) : Prop where
  aligned : Utf8.Aligned text
  first : Utf8.Aligned after → ∀ before, ∃ r,
    (Slot.readingsBlock (before ++ (text ++ after)) block before.length).head? =
        some (before.length + text.length, r) ∧
      r.texts (before ++ (text ++ after)) = texts ∧ r.alternatives = alternatives

namespace Slot

theorem head?_flatMap_of {α β : Type} {l : List α} {f : α → List β} {a : α} {b : β}
    (ha : l.head? = some a) (hb : (f a).head? = some b) : (l.flatMap f).head? = some b := by
  obtain ⟨others, rfl⟩ := List.head?_eq_some_iff.mp ha
  rw [List.flatMap_cons, List.head?_append, hb, Option.some_or]

theorem readingsBlock_singleton (input : Bytes) (slot : Slot) (start : Nat) :
    readingsBlock input [slot] start = slot.readings input start := by
  simp only [readingsBlock, List.map_cons, List.map_nil, Reading.append_nil,
    List.flatMap_singleton']

theorem readingsBlock_append (input : Bytes) (early late : List Slot) (start : Nat) :
    readingsBlock input (early ++ late) start =
      (readingsBlock input early start).flatMap fun x =>
        (readingsBlock input late x.1).map fun y => (y.1, x.2 ++ y.2) := by
  induction early generalizing start with
  | nil =>
    simp only [List.nil_append, readingsBlock, List.flatMap_singleton, Reading.nil_append]
    exact (List.map_id _).symm
  | cons slot early ih =>
    simp only [List.cons_append, readingsBlock, ih, List.map_flatMap, List.map_map,
      List.flatMap_assoc, List.flatMap_map, Function.comp_def, Reading.append_assoc]

variable {block : List Slot} {text after : Bytes} {texts : List (Option Bytes)}
  {alternatives : List (Option Nat)}

/-! ### Where nothing can be read -/

theorem Refuses.literal {bytes : Bytes} (h : ¬ bytes <+: after) (rest : List Slot) :
    Refuses (.literal bytes :: rest) after := by
  intro before
  have hprefix : bytes.isPrefixOf after = false := by
    rw [Bool.eq_false_iff]
    exact fun hp => h (List.isPrefixOf_iff_prefix.mp hp)
  simp only [readingsBlock, readings, List.drop_left, hprefix]
  rfl

theorem Refuses.byte {b : UInt8} (h : ∀ x ∈ after.head?, x ≠ b) (rest : List Slot) :
    Refuses (byte b :: rest) after := by
  refine Refuses.literal (fun hprefix => ?_) rest
  obtain ⟨behind, rfl⟩ := hprefix
  exact h b rfl rfl

theorem Refuses.skip {token : Token} (h : token.lengths after = []) (rest : List Slot) :
    Refuses (.skip token :: rest) after := by
  intro before
  simp only [readingsBlock, readings, List.drop_left, h]
  rfl

theorem Refuses.captured {token : Token} (h : token.lengths after = []) (rest : List Slot) :
    Refuses (captured token :: rest) after := by
  intro before
  simp only [Slot.captured, readingsBlock, readings, List.drop_left, h]
  rfl

/-- What is refused behind a literal is refused with the literal in front. -/
theorem Refuses.behind (h : Refuses block after) (bytes : Bytes) :
    Refuses (.literal bytes :: block) (bytes ++ after) := by
  intro before
  have hprefix : bytes.isPrefixOf (bytes ++ after) = true :=
    List.isPrefixOf_iff_prefix.mpr ⟨after, rfl⟩
  have hrest := h (before ++ bytes)
  rw [List.append_assoc, List.length_append] at hrest
  simp only [readingsBlock, readings, List.drop_left, hprefix, if_true, List.flatMap_singleton,
    hrest, List.map_nil]

theorem Refuses.anyOf {blocks : List (List Slot)} (h : ∀ block ∈ blocks, Refuses block after) :
    Refuses [anyOf blocks] after := by
  intro before
  have hnone : readingsOneOf (before ++ after) blocks before.length = [] := by
    induction blocks with
    | nil => rfl
    | cons block blocks ih =>
      simp only [readingsOneOf, h block List.mem_cons_self before, List.map_nil, List.nil_append,
        ih fun b hb => h b (List.mem_cons_of_mem block hb)]
  rw [readingsBlock_singleton, Slot.anyOf, readings, hnone]
  rfl

/-! ### What is read first -/

theorem Prefers.nil (after : Bytes) : Prefers [] [] after [] [] where
  aligned := fun _ h => nomatch h
  first := fun _ _ => ⟨{}, rfl, rfl, rfl⟩

theorem Prefers.append {early late : List Slot} {more : Bytes} {moreTexts : List (Option Bytes)}
    {moreAlternatives : List (Option Nat)}
    (hearly : Prefers early text (more ++ after) texts alternatives)
    (hlate : Prefers late more after moreTexts moreAlternatives) :
    Prefers (early ++ late) (text ++ more) after (texts ++ moreTexts)
      (alternatives ++ moreAlternatives) where
  aligned := Utf8.aligned_append hearly.aligned hlate.aligned
  first := fun hafter before => by
    obtain ⟨r, hr, rfl, rfl⟩ := hearly.first (Utf8.aligned_append hlate.aligned hafter) before
    obtain ⟨s, hs, rfl, rfl⟩ := hlate.first hafter (before ++ text)
    simp only [List.append_assoc, List.length_append] at hr hs ⊢
    refine ⟨r ++ s, ?_, Reading.texts_append _ r s, rfl⟩
    rw [readingsBlock_append]
    refine head?_flatMap_of hr ?_
    rw [List.head?_map, hs, Nat.add_assoc]
    rfl

theorem Prefers.cons {slot : Slot} {rest : List Slot} {more : Bytes}
    {moreTexts : List (Option Bytes)} {moreAlternatives : List (Option Nat)}
    (hslot : Prefers [slot] text (more ++ after) texts alternatives)
    (hrest : Prefers rest more after moreTexts moreAlternatives) :
    Prefers (slot :: rest) (text ++ more) after (texts ++ moreTexts)
      (alternatives ++ moreAlternatives) :=
  hslot.append hrest

theorem Prefers.literal {bytes : Bytes} (h : Utf8.Aligned bytes) (after : Bytes) :
    Prefers [.literal bytes] bytes after [] [] where
  aligned := h
  first := fun _ before => by
    have hprefix : bytes.isPrefixOf (bytes ++ after) = true :=
      List.isPrefixOf_iff_prefix.mpr ⟨after, rfl⟩
    refine ⟨{}, ?_, rfl, rfl⟩
    simp only [readingsBlock_singleton, readings, List.drop_left, hprefix, if_true,
      List.head?_cons]

theorem Prefers.skip {token : Token} (htext : Utf8.Aligned text)
    (h : token.Prefers text after) : Prefers [.skip token] text after [] [] where
  aligned := htext
  first := fun _ before => by
    unfold Token.Prefers at h
    refine ⟨{ choices := [.length text.length] }, ?_, rfl, rfl⟩
    simp only [readingsBlock_singleton, readings, List.drop_left, List.head?_map, h,
      Option.map_some]

theorem Prefers.captured {token : Token} (htext : Utf8.Aligned text)
    (h : token.Prefers text after) : Prefers [captured token] text after [some text] [] where
  aligned := htext
  first := fun hafter before => by
    unfold Token.Prefers at h
    refine ⟨{ choices := [.length text.length],
              groups := [some ⟨before.length, before.length + text.length⟩] }, ?_, ?_, rfl⟩
    · simp only [Slot.captured, readingsBlock_singleton, readings, List.drop_left, List.head?_map,
        h, Option.map_some]
    · exact congrArg (fun text => [text]) (cut?_middle before htext hafter)

section
variable {rest : List Slot}

theorem Prefers.byte_cons {b : UInt8} (hb : b < 0x80)
    (h : Prefers rest text after texts alternatives) :
    Prefers (byte b :: rest) (b :: text) after texts alternatives :=
  (Prefers.literal (Utf8.aligned_cons hb []) _).cons h

theorem Prefers.captured_cons {token : Token} {more : Bytes} (htext : Utf8.Aligned text)
    (htoken : token.Prefers text (more ++ after))
    (h : Prefers rest more after texts alternatives) :
    Prefers (Slot.captured token :: rest) (text ++ more) after (some text :: texts)
      alternatives :=
  (Prefers.captured htext htoken).cons h

theorem Prefers.skip_cons {token : Token} {more : Bytes} (htext : Utf8.Aligned text)
    (htoken : token.Prefers text (more ++ after))
    (h : Prefers rest more after texts alternatives) :
    Prefers (.skip token :: rest) (text ++ more) after texts alternatives :=
  (Prefers.skip htext htoken).cons h

end

/-- A block that can be there is. -/
theorem Prefers.taken (h : Prefers block text after texts alternatives) :
    Prefers [.optional block] text after texts alternatives where
  aligned := h.aligned
  first := fun hafter before => by
    obtain ⟨r, hr, htexts, halternatives⟩ := h.first hafter before
    refine ⟨r.choose .taken, ?_, htexts, halternatives⟩
    simp only [readingsBlock_singleton, readings, List.head?_append, List.head?_map, hr,
      Option.map_some, Option.some_or]

/-- A block that cannot be there is not. -/
theorem Prefers.omitted (h : Refuses block after) :
    Prefers [.optional block] [] after
      (List.replicate (absentBlock block).tally.groups none)
      (List.replicate (absentBlock block).tally.alternations none) where
  aligned := fun _ h => nomatch h
  first := fun _ before => by
    refine ⟨(absentBlock block).choose .omitted, ?_,
      Reading.texts_blank (absentBlock_blank block) _,
      congrArg Marks.alternatives (absentBlock_blank block)⟩
    simp only [List.nil_append, readingsBlock_singleton, readings, h before, List.map_nil,
      List.head?_cons, List.length_nil, Nat.add_zero]

theorem readingsOneOf_first {input : Bytes} {early : List (List Slot)} {start stop : Nat}
    {r : Reading} (late : List (List Slot))
    (hearly : ∀ refused ∈ early, readingsBlock input refused start = [])
    (hr : (readingsBlock input block start).head? = some (stop, r)) :
    (readingsOneOf input (early ++ block :: late) start).head? =
      some (early.length, stop, absentAlternatives early ++ (r ++ absentAlternatives late)) := by
  induction early with
  | nil =>
    simp only [List.nil_append, readingsOneOf, List.head?_append, List.head?_map, hr,
      Option.map_some, Option.some_or]
    rfl
  | cons refused early ih =>
    have hothers := ih fun b hb => hearly b (List.mem_cons_of_mem refused hb)
    simp only [List.cons_append, readingsOneOf, hearly refused List.mem_cons_self, List.map_nil,
      List.nil_append, List.head?_map, hothers, Option.map_some, absentAlternatives,
      Reading.append_assoc]
    rfl

/-- The first alternative that can stand does. -/
theorem Prefers.anyOf (early : List (List Slot)) {late : List (List Slot)}
    (hearly : ∀ refused ∈ early, Refuses refused (text ++ after))
    (h : Prefers block text after texts alternatives) :
    Prefers [anyOf (early ++ block :: late)] text after
      (List.replicate (absentAlternatives early).tally.groups none ++
        (texts ++ List.replicate (absentAlternatives late).tally.groups none))
      (some early.length :: (List.replicate (absentAlternatives early).tally.alternations none ++
        (alternatives ++
          List.replicate (absentAlternatives late).tally.alternations none))) where
  aligned := h.aligned
  first := fun hafter before => by
    obtain ⟨r, hr, rfl, rfl⟩ := h.first hafter before
    have hfirst := readingsOneOf_first late (fun refused hmem => hearly refused hmem before) hr
    refine ⟨Reading.branch early.length ++ (absentAlternatives early ++
      (r ++ absentAlternatives late)), ?_, ?_, ?_⟩
    · rw [readingsBlock_singleton, Slot.anyOf, readings, List.head?_map, hfirst]
      rfl
    · simp only [Reading.texts_append, Reading.texts_blank (absentAlternatives_blank _)]
      rfl
    · have hblank : ∀ blocks : List (List Slot), (absentAlternatives blocks).alternatives =
          List.replicate (absentAlternatives blocks).tally.alternations none :=
        fun blocks => congrArg Marks.alternatives (absentAlternatives_blank blocks)
      simp only [Reading.alternatives_append, ← hblank]
      rfl

end Slot

/-! ## A whole sentence -/

/-- What a match has captured, and the alternatives it has taken. -/
structure Captures.Holds (captures : Captures) (texts : List (Option Bytes))
    (alternatives : List (Option Nat)) : Prop where
  bytesAt_eq : ∀ index, captures.bytesAt index = (texts[index]?).join
  alternative?_eq : ∀ index, captures.alternative? index = (alternatives[index]?).join

theorem holds_reading (input : Bytes) (r : Reading) (cursor : Nat) :
    Captures.Holds ⟨input, r.groups, r.alternatives, cursor⟩ (r.texts input) r.alternatives where
  bytesAt_eq := fun index => by
    unfold Captures.bytesAt Reading.texts
    rw [List.getElem?_map]
    cases r.groups[index]? with
    | none => rfl
    | some span => cases span <;> rfl
  alternative?_eq := fun _ => rfl

/-- **A sentence that is preferred as a whole is matched as it was meant.** -/
theorem parse_prefers (name : String) {slots : List Slot} {sentence : String}
    {texts : List (Option Bytes)} {alternatives : List (Option Nat)}
    (h : Slot.Prefers slots (Ascii.utf8 sentence) [] texts alternatives) :
    ∃ captures, (Grammar.build name slots).parse sentence = some captures ∧
      captures.Holds texts alternatives := by
  obtain ⟨r, hr, rfl, rfl⟩ := h.first (fun _ h => nomatch h) []
  simp only [List.nil_append, List.append_nil, List.length_nil, Nat.zero_add] at hr ⊢
  obtain ⟨others, hlist⟩ := List.head?_eq_some_iff.mp hr
  refine ⟨_, ?_, holds_reading (Ascii.utf8 sentence) r 0⟩
  rw [Grammar.parse, marks?_build, hlist, List.find?_cons_of_pos (by simp)]
  rfl

end TrackerWire
