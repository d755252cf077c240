import Noddde.Data.Json
import Mathlib.Data.List.TakeWhile
/-!
# Parsing undoes stringifying

What `JSON.stringify` writes, `JSON.parse` reads back, whatever follows.  A text is
never read as itself: a string is shorter than what it is read from.
-/

namespace Json

variable {N : Type}

/-! ## Strings -/

theorem hexValue_hexDigit : ∀ n < 16, hexValue (hexDigit n) = some n := by decide

theorem hexUnit_unicodeEscape (c : UInt16) :
    hexUnit (hexDigit (c.toNat / 4096)) (hexDigit (c.toNat / 256 % 16))
      (hexDigit (c.toNat / 16 % 16)) (hexDigit (c.toNat % 16)) = some c := by
  have hlt := c.toNat_lt
  have hfirst := hexValue_hexDigit (c.toNat / 4096) (by omega)
  have hsecond := hexValue_hexDigit (c.toNat / 256 % 16) (by omega)
  have hthird := hexValue_hexDigit (c.toNat / 16 % 16) (by omega)
  have hfourth := hexValue_hexDigit (c.toNat % 16) (by omega)
  have hsum : 4096 * (c.toNat / 4096) + 256 * (c.toNat / 256 % 16) +
      16 * (c.toNat / 16 % 16) + c.toNat % 16 = c.toNat := by omega
  simp only [hexUnit, hfirst, hsecond, hthird, hfourth, Option.bind_eq_bind, Option.bind_some,
    hsum]
  exact congrArg some (UInt16.ofNat_toNat)

theorem shortEscapes_spec : ∀ entry ∈ shortEscapes,
    unescape entry.2 = some entry.1 ∧ entry.2 ≠ letterU :=
  List.forall_iff_forall_mem.mp (by decide)

theorem shortEscapes_of_lookup {c letter : UInt16} (h : shortEscapes.lookup c = some letter) :
    unescape letter = some c ∧ letter ≠ letterU := by
  have hmem : (c, letter) ∈ shortEscapes := by
    obtain ⟨before, after, hsplit, -⟩ := List.lookup_eq_some_iff.mp h
    rw [hsplit]
    exact List.mem_append_right _ List.mem_cons_self
  exact shortEscapes_spec _ hmem

theorem not_special_of_lookup {c : UInt16} (h : shortEscapes.lookup c = none) :
    c ≠ quotationMark ∧ c ≠ reverseSolidus := by
  constructor
  · rintro rfl
    exact absurd h (by decide)
  · rintro rfl
    exact absurd h (by decide)

theorem readString_unit {c : UInt16} (hquote : c ≠ quotationMark) (hsolidus : c ≠ reverseSolidus)
    (hcontrol : ¬ c < 0x20) {text rest tail : JsString}
    (h : readString tail = some (text, rest)) :
    readString (c :: tail) = some (c :: text, rest) := by
  rw [readString.eq_def]
  simp only [if_neg hquote, if_neg hsolidus, if_neg hcontrol, h]

theorem readString_escape (c : UInt16) {text rest tail : JsString}
    (h : readString tail = some (text, rest)) :
    readString (escape c ++ tail) = some (c :: text, rest) := by
  have hne : reverseSolidus ≠ quotationMark := by decide
  unfold escape
  split
  · rename_i letter hletter
    obtain ⟨hunescape, hletterU⟩ := shortEscapes_of_lookup hletter
    rw [List.cons_append, List.cons_append, List.nil_append, readString.eq_def]
    simp only [if_neg hne, if_true, if_neg hletterU, hunescape, h]
  · rename_i hnone
    obtain ⟨hquote, hsolidus⟩ := not_special_of_lookup hnone
    split_ifs with hescaped
    · have hunit := hexUnit_unicodeEscape c
      unfold unicodeEscape
      simp only [List.cons_append, List.nil_append]
      rw [readString.eq_def]
      simp only [if_neg hne, if_true, hunit, h]
    · have hcontrol : ¬ c < 0x20 := by
        intro hlt
        simp [hlt] at hescaped
      exact readString_unit hquote hsolidus hcontrol h

theorem surrogate_unescaped {c : UInt16} (h : isHighSurrogate c = true ∨ isLowSurrogate c = true) :
    c ≠ quotationMark ∧ c ≠ reverseSolidus ∧ ¬ c < 0x20 := by
  have hle : (0xD800 : UInt16) ≤ c := by
    rcases h with h | h
    · simp only [isHighSurrogate, Bool.and_eq_true, decide_eq_true_eq] at h
      exact h.1
    · simp only [isLowSurrogate, Bool.and_eq_true, decide_eq_true_eq] at h
      exact UInt16.le_trans (by decide) h.1
  refine ⟨?_, ?_, ?_⟩
  · rintro rfl
    exact absurd hle (by decide)
  · rintro rfl
    exact absurd hle (by decide)
  · intro hlt
    exact absurd (UInt16.lt_of_le_of_lt hle hlt) (by decide)

theorem readString_quotationMark (rest : JsString) :
    readString (quotationMark :: rest) = some ([], rest) := by
  rw [readString.eq_def]
  exact if_pos rfl

theorem readString_escapeAll (text rest : JsString) :
    readString (escapeAll text ++ quotationMark :: rest) = some (text, rest) := by
  induction text using escapeAll.induct with
  | case1 => exact readString_quotationMark rest
  | case2 c => exact readString_escape c (readString_quotationMark rest)
  | case3 c d tail hpair ih =>
      obtain ⟨hhigh, hlow⟩ := Bool.and_eq_true_iff.mp hpair
      obtain ⟨hc₁, hc₂, hc₃⟩ := surrogate_unescaped (.inl hhigh)
      obtain ⟨hd₁, hd₂, hd₃⟩ := surrogate_unescaped (.inr hlow)
      rw [escapeAll, if_pos hpair]
      exact readString_unit hc₁ hc₂ hc₃ (readString_unit hd₁ hd₂ hd₃ ih)
  | case4 c d tail hpair ih =>
      rw [escapeAll, if_neg hpair, List.append_assoc]
      exact readString_escape c ih

/-- What is read takes at least a code unit for each of its own, and one to end it. -/
theorem length_readString {tail text rest : JsString} (h : readString tail = some (text, rest)) :
    text.length + rest.length < tail.length := by
  induction tail using readString.induct generalizing text rest with
  | case2 rest =>
      rw [readString_quotationMark] at h
      cases h
      simp
  | case4 h₁ h₂ h₃ h₄ after unit read rest' hread hunit hne ih =>
      rw [readString.eq_def] at h
      simp only [if_neg hne, if_true, hunit, hread, Option.some.injEq, Prod.mk.injEq] at h
      obtain ⟨rfl, rfl⟩ := h
      have hlt := ih hread
      simp only [List.length_cons]
      omega
  | case7 letter after hletter unit read rest' hread hunit hne ih =>
      rw [readString.eq_def] at h
      simp only [if_neg hne, if_true, if_neg hletter, hunit, hread, Option.some.injEq,
        Prod.mk.injEq] at h
      obtain ⟨rfl, rfl⟩ := h
      have hlt := ih hread
      simp only [List.length_cons]
      omega
  | case10 c after hquote hsolidus hcontrol read rest' hread ih =>
      rw [readString.eq_def] at h
      simp only [if_neg hquote, if_neg hsolidus, if_neg hcontrol, hread, Option.some.injEq,
        Prod.mk.injEq] at h
      obtain ⟨rfl, rfl⟩ := h
      have hlt := ih hread
      simp only [List.length_cons]
      omega
  | _ =>
      rw [readString.eq_def] at h
      simp_all

/-! ## Values -/

/-- What may follow a number: nothing that would be read as part of it. -/
def Ends (rest : JsString) : Prop := ∀ c tail, rest = c :: tail → isNumberUnit c = false

theorem ends_cons {c : UInt16} (h : isNumberUnit c = false) (tail : JsString) :
    Ends (c :: tail) := by
  intro c' tail' heq
  obtain ⟨rfl, -⟩ := List.cons.inj heq
  exact h

theorem takeWhile_ends {rest : JsString} (h : Ends rest) : rest.takeWhile isNumberUnit = [] := by
  cases rest with
  | nil => rfl
  | cons c tail => rw [List.takeWhile_cons, h c tail rfl, if_neg Bool.false_ne_true]

theorem dropWhile_ends {rest : JsString} (h : Ends rest) :
    rest.dropWhile isNumberUnit = rest := by
  cases rest with
  | nil => rfl
  | cons c tail => rw [List.dropWhile_cons, h c tail rfl, if_neg Bool.false_ne_true]

theorem skip_cons {c : UInt16} (h : isSpace c = false) (rest : JsString) :
    skip (c :: rest) = c :: rest := by
  rw [skip, h, if_neg Bool.false_ne_true]

/-- Code units with which a value can begin. -/
structure Begins (c : UInt16) : Prop where
  space : isSpace c = false
  bracket : c ≠ rightBracket
  brace : c ≠ rightBrace

/-- Code units with which a word or a number can begin. -/
structure BeginsWord (c : UInt16) : Prop extends Begins c where
  quote : c ≠ quotationMark
  array : c ≠ leftBracket
  object : c ≠ leftBrace

theorem beginsWord_of_number {c : UInt16} (h : isNumberUnit c = true) : BeginsWord c := by
  have hne : ∀ d, isNumberUnit d = false → c ≠ d := by
    rintro d hd rfl
    rw [h] at hd
    cases hd
  have hspace : isSpace c = false := by
    simp only [isSpace, Bool.or_eq_false_iff, beq_eq_false_iff_ne]
    exact ⟨⟨⟨hne _ (by decide), hne _ (by decide)⟩, hne _ (by decide)⟩, hne _ (by decide)⟩
  exact ⟨⟨hspace, hne _ (by decide), hne _ (by decide)⟩, hne _ (by decide), hne _ (by decide),
    hne _ (by decide)⟩

section Values

variable [Number N]

theorem readWord_null (rest : JsString) :
    (readWord (ascii "null" ++ rest) : Option (Json N × JsString)) = some (null, rest) := by
  rw [readWord, if_pos (List.isPrefixOf_iff_prefix.mpr (List.prefix_append _ _)),
    List.drop_left' (by rfl)]

theorem not_isPrefixOf {word : JsString} {c : UInt16} {tail : JsString}
    (h : word.head? ≠ some c) (hword : word ≠ []) : ¬ word.isPrefixOf (c :: tail) = true := by
  cases word with
  | nil => exact absurd rfl hword
  | cons d word =>
      intro hprefix
      obtain ⟨suffix, heq⟩ := List.isPrefixOf_iff_prefix.mp hprefix
      exact h (congrArg some (List.cons.inj heq).1)

theorem readWord_true (rest : JsString) :
    (readWord (ascii "true" ++ rest) : Option (Json N × JsString)) = some (bool true, rest) := by
  have hnull : ¬ (ascii "null").isPrefixOf (ascii "true" ++ rest) = true :=
    not_isPrefixOf (by decide) (by decide)
  rw [readWord, if_neg hnull, if_pos (List.isPrefixOf_iff_prefix.mpr (List.prefix_append _ _)),
    List.drop_left' (by rfl)]

theorem readWord_false (rest : JsString) :
    (readWord (ascii "false" ++ rest) : Option (Json N × JsString)) =
      some (bool false, rest) := by
  have hnull : ¬ (ascii "null").isPrefixOf (ascii "false" ++ rest) = true :=
    not_isPrefixOf (by decide) (by decide)
  have htrue : ¬ (ascii "true").isPrefixOf (ascii "false" ++ rest) = true :=
    not_isPrefixOf (by decide) (by decide)
  rw [readWord, if_neg hnull, if_neg htrue,
    if_pos (List.isPrefixOf_iff_prefix.mpr (List.prefix_append _ _)), List.drop_left' (by rfl)]

theorem readWord_number (n : N) {rest : JsString} (h : Ends rest) :
    readWord (Number.render n ++ rest) = some (number n, rest) := by
  have hunits := Number.render_units n
  have htake : (Number.render n ++ rest).takeWhile isNumberUnit = Number.render n := by
    rw [List.takeWhile_append_of_pos hunits, takeWhile_ends h, List.append_nil]
  have hdrop : (Number.render n ++ rest).dropWhile isNumberUnit = rest := by
    rw [List.dropWhile_append_of_pos hunits, dropWhile_ends h]
  obtain ⟨c, tail, hrender⟩ := List.exists_cons_of_ne_nil (Number.render_ne_nil n)
  have hc : isNumberUnit c = true := hunits c (hrender ▸ List.mem_cons_self)
  have hword : ∀ word : JsString, word ≠ [] → word.head?.any isNumberUnit = false →
      ¬ word.isPrefixOf (Number.render n ++ rest) = true := by
    intro word hne hhead
    rw [hrender]
    apply not_isPrefixOf _ hne
    intro heq
    rw [heq, Option.any_some, hc] at hhead
    cases hhead
  rw [readWord, if_neg (hword _ (by decide) (by decide)), if_neg (hword _ (by decide) (by decide)),
    if_neg (hword _ (by decide) (by decide)), htake, hdrop, Number.read_render]
  rfl

theorem readValue_word {c : UInt16} (h : BeginsWord c) (fuel : Nat) (tail : JsString) :
    (readValue (fuel + 1) (c :: tail) : Option (Json N × JsString)) = readWord (c :: tail) := by
  rw [readValue, skip_cons h.space]
  simp only [if_neg h.quote, if_neg h.array, if_neg h.object]

theorem stringify_begins (value : Json N) :
    ∃ c tail, stringify value = c :: tail ∧ Begins c := by
  cases value with
  | null => exact ⟨_, _, by rw [stringify]; rfl, by constructor <;> decide⟩
  | bool value =>
      cases value with
      | false => exact ⟨_, _, by rw [stringify]; rfl, by constructor <;> decide⟩
      | true => exact ⟨_, _, by rw [stringify]; rfl, by constructor <;> decide⟩
  | number n =>
      obtain ⟨c, tail, hrender⟩ := List.exists_cons_of_ne_nil (Number.render_ne_nil n)
      have hc := Number.render_units n c (hrender ▸ List.mem_cons_self)
      exact ⟨c, tail, by rw [stringify, hrender], (beginsWord_of_number hc).toBegins⟩
  | string text => exact ⟨_, _, by rw [stringify, quote], by constructor <;> decide⟩
  | array values =>
      cases values with
      | nil => exact ⟨_, _, by rw [stringify], by constructor <;> decide⟩
      | cons value values => exact ⟨_, _, by rw [stringify], by constructor <;> decide⟩
  | object fields =>
      cases fields with
      | nil => exact ⟨_, _, by rw [stringify], by constructor <;> decide⟩
      | cons field fields => exact ⟨_, _, by rw [stringify], by constructor <;> decide⟩

omit [Number N] in
theorem ofMembers_of_nodup {members : List (JsString × Json N)}
    (h : (members.map Prod.fst).Nodup) : ofMembers members = members := by
  have hset : ∀ (rest fields : List (JsString × Json N)),
      ((fields ++ rest).map Prod.fst).Nodup →
      rest.foldl (fun fields member => InsertionMap.setEntry member.1 member.2 fields) fields =
        fields ++ rest := by
    intro rest
    induction rest with
    | nil => exact fun fields _ => (List.append_nil fields).symm
    | cons member rest ih =>
        intro fields hnodup
        have hnew : InsertionMap.setEntry member.1 member.2 fields = fields ++ [member] := by
          apply InsertionMap.setEntry_of_not_mem
          rw [List.map_append, List.map_cons] at hnodup
          exact fun hmem => List.disjoint_of_nodup_append hnodup hmem List.mem_cons_self
        rw [List.foldl_cons, hnew, ih _ (by simpa using hnodup), List.append_assoc]
        rfl
  exact hset members [] h

theorem length_stringify_pos (value : Json N) : 0 < (stringify value).length := by
  obtain ⟨c, tail, htext, -⟩ := stringify_begins value
  rw [htext]
  exact Nat.zero_lt_succ _

theorem beginsWord_ascii : ∀ word ∈ ["null", "true", "false"], ∀ c ∈ (ascii word).head?,
    isSpace c = false ∧ c ≠ rightBracket ∧ c ≠ rightBrace ∧ c ≠ quotationMark ∧
      c ≠ leftBracket ∧ c ≠ leftBrace := by
  intro word hword c hc
  have hall : ∀ word ∈ ["null", "true", "false"], (ascii word).head?.all fun c =>
      isSpace c = false ∧ c ≠ rightBracket ∧ c ≠ rightBrace ∧ c ≠ quotationMark ∧
        c ≠ leftBracket ∧ c ≠ leftBrace := by decide
  exact of_decide_eq_true ((Option.all_eq_true _ _).mp (hall word hword) c hc)

theorem readValue_ascii {word : String} (h : word ∈ ["null", "true", "false"]) (fuel : Nat)
    (rest : JsString) :
    (readValue (fuel + 1) (ascii word ++ rest) : Option (Json N × JsString)) =
      readWord (ascii word ++ rest) := by
  cases hword : ascii word with
  | nil =>
      have hne : ∀ word ∈ ["null", "true", "false"], ascii word ≠ [] := by decide
      exact absurd hword (hne word h)
  | cons c tail =>
      obtain ⟨hspace, hbracket, hbrace, hquote, harray, hobject⟩ :=
        beginsWord_ascii word h c (by rw [hword]; rfl)
      exact readValue_word ⟨⟨hspace, hbracket, hbrace⟩, hquote, harray, hobject⟩ fuel _

theorem readValue_number (n : N) (fuel : Nat) {rest : JsString} (h : Ends rest) :
    readValue (fuel + 1) (Number.render n ++ rest) = some (number n, rest) := by
  obtain ⟨c, tail, hrender⟩ := List.exists_cons_of_ne_nil (Number.render_ne_nil n)
  have hc := Number.render_units n c (hrender ▸ List.mem_cons_self)
  have hword := readWord_number n h
  rw [hrender] at hword ⊢
  exact (readValue_word (beginsWord_of_number hc) fuel _).trans hword

theorem readValue_quote (text rest : JsString) (fuel : Nat) :
    (readValue (fuel + 1) (quote text ++ rest) : Option (Json N × JsString)) =
      some (string text, rest) := by
  have hspace : isSpace quotationMark = false := by decide
  have hread := readString_escapeAll text rest
  rw [quote, List.cons_append, List.append_assoc, readValue, skip_cons hspace]
  simp only [if_true, List.cons_append, List.nil_append, hread, Option.map_some]

theorem readValue_array {value : Json N} {values : List (Json N)} {fuel : Nat} {rest : JsString}
    (hvalue : readValue fuel (stringify value ++ (moreElements values ++ rightBracket :: rest)) =
      some (value, moreElements values ++ rightBracket :: rest))
    (hvalues : readElements fuel (moreElements values ++ rightBracket :: rest) =
      some (values, rest)) :
    readValue (fuel + 1) (stringify (array (value :: values)) ++ rest) =
      some (array (value :: values), rest) := by
  obtain ⟨c, tail, htext, hc⟩ := stringify_begins value
  have hspace : isSpace leftBracket = false := by decide
  have hquote : leftBracket ≠ quotationMark := by decide
  rw [stringify, List.cons_append, List.append_assoc, List.append_assoc, List.singleton_append,
    readValue, skip_cons hspace]
  rw [htext, List.cons_append] at hvalue ⊢
  simp only [if_neg hquote, if_true, skip_cons hc.space, if_neg hc.bracket, hvalue, hvalues,
    Option.bind_eq_bind, Option.bind_some]

theorem readValue_object {field : JsString × Json N} {fields : List (JsString × Json N)}
    {fuel : Nat} {rest : JsString} (hnodup : ((field :: fields).map Prod.fst).Nodup)
    (hfield : readMember fuel (stringifyMember field ++
      (moreMembers fields ++ rightBrace :: rest)) =
        some (field, moreMembers fields ++ rightBrace :: rest))
    (hfields : readMembers fuel (moreMembers fields ++ rightBrace :: rest) =
      some (fields, rest)) :
    readValue (fuel + 1) (stringify (object (field :: fields)) ++ rest) =
      some (object (field :: fields), rest) := by
  have hspace : isSpace leftBrace = false := by decide
  have hquote : leftBrace ≠ quotationMark := by decide
  have hbracket : leftBrace ≠ leftBracket := by decide
  have hmark : isSpace quotationMark = false := by decide
  have hbrace : quotationMark ≠ rightBrace := by decide
  obtain ⟨tail, htext⟩ : ∃ tail, stringifyMember field = quotationMark :: tail := by
    obtain ⟨key, value⟩ := field
    exact ⟨_, by rw [stringifyMember, quote, List.cons_append]⟩
  rw [stringify, List.cons_append, List.append_assoc, List.append_assoc, List.singleton_append,
    readValue, skip_cons hspace]
  rw [htext, List.cons_append] at hfield ⊢
  simp only [if_neg hquote, if_neg hbracket, if_true, skip_cons hmark, if_neg hbrace, hfield,
    hfields, Option.bind_eq_bind, Option.bind_some, ofMembers_of_nodup hnodup]

theorem readMember_of_value {key : JsString} {value : Json N} {fuel : Nat} {rest : JsString}
    (hvalue : readValue fuel (stringify value ++ rest) = some (value, rest)) :
    readMember (fuel + 1) (stringifyMember (key, value) ++ rest) = some ((key, value), rest) := by
  have hmark : isSpace quotationMark = false := by decide
  have hcolon : isSpace colon = false := by decide
  have hread := readString_escapeAll key (colon :: (stringify value ++ rest))
  rw [stringifyMember, quote, List.append_assoc, List.cons_append, List.cons_append,
    List.append_assoc, readMember, skip_cons hmark]
  simp only [if_true, List.cons_append, List.nil_append, hread, skip_cons hcolon, hvalue,
    Option.bind_eq_bind, Option.bind_some]

omit [Number N] in
theorem ends_comma (tail : JsString) : Ends (comma :: tail) := ends_cons (by decide) tail

theorem ends_moreElements (values : List (Json N)) (rest : JsString) :
    Ends (moreElements values ++ rightBracket :: rest) := by
  cases values with
  | nil => exact ends_cons (by decide) rest
  | cons value values =>
      rw [moreElements]
      exact ends_comma _

theorem ends_moreMembers (members : List (JsString × Json N)) (rest : JsString) :
    Ends (moreMembers members ++ rightBrace :: rest) := by
  cases members with
  | nil => exact ends_cons (by decide) rest
  | cons member members =>
      rw [moreMembers]
      exact ends_comma _

theorem readElements_cons {value : Json N} {values : List (Json N)} {fuel : Nat}
    {rest after : JsString}
    (hvalue : readValue fuel (stringify value ++ rest) = some (value, rest))
    (hvalues : readElements fuel rest = some (values, after)) :
    readElements (fuel + 1) (comma :: (stringify value ++ rest)) =
      some (value :: values, after) := by
  have hspace : isSpace comma = false := by decide
  have hbracket : comma ≠ rightBracket := by decide
  rw [readElements, skip_cons hspace]
  simp only [if_neg hbracket, if_true, hvalue, hvalues, Option.bind_eq_bind, Option.bind_some]

theorem readMembers_cons {member : JsString × Json N} {members : List (JsString × Json N)}
    {fuel : Nat} {rest after : JsString}
    (hmember : readMember fuel (stringifyMember member ++ rest) = some (member, rest))
    (hmembers : readMembers fuel rest = some (members, after)) :
    readMembers (fuel + 1) (comma :: (stringifyMember member ++ rest)) =
      some (member :: members, after) := by
  have hspace : isSpace comma = false := by decide
  have hbrace : comma ≠ rightBrace := by decide
  rw [readMembers, skip_cons hspace]
  simp only [if_neg hbrace, if_true, hmember, hmembers, Option.bind_eq_bind, Option.bind_some]

theorem length_quote (text : JsString) : 2 ≤ (quote text).length := by
  rw [quote, List.length_cons, List.length_append]
  exact Nat.succ_le_succ (Nat.le_add_left 1 _)

theorem length_stringifyMember_pos (member : JsString × Json N) :
    0 < (stringifyMember member).length := by
  have hquote := length_quote member.1
  rw [stringifyMember, List.length_append]
  omega

mutual

theorem readValue_stringify : (value : Json N) → value.Proper → ∀ (fuel : Nat) (rest : JsString),
    (stringify value).length ≤ fuel + 1 → Ends rest →
      readValue (fuel + 1) (stringify value ++ rest) = some (value, rest)
  | null, _, fuel, rest, _, _ => by
      rw [stringify, readValue_ascii (by decide)]
      exact readWord_null rest
  | bool true, _, fuel, rest, _, _ => by
      rw [stringify, readValue_ascii (by decide)]
      exact readWord_true rest
  | bool false, _, fuel, rest, _, _ => by
      rw [stringify, readValue_ascii (by decide)]
      exact readWord_false rest
  | number n, _, fuel, rest, _, hrest => by
      rw [stringify]
      exact readValue_number n fuel hrest
  | string text, _, fuel, rest, _, _ => by
      rw [stringify]
      exact readValue_quote text rest fuel
  | array [], _, fuel, rest, _, _ => by
      rw [stringify, readValue]
      rfl
  | array (value :: values), .array hproper, fuel, rest, hfuel, _ => by
      rw [stringify, List.length_cons, List.length_append, List.length_append] at hfuel
      have hpos := length_stringify_pos value
      obtain ⟨fuel, rfl⟩ : ∃ k, fuel = k + 1 := ⟨fuel - 1, by simp at hfuel; omega⟩
      apply readValue_array
      · apply readValue_stringify value (hproper value List.mem_cons_self)
        · omega
        · exact ends_moreElements values rest
      · apply readElements_more values fun value hmem => hproper value (List.mem_cons_of_mem _ hmem)
        rw [List.length_singleton] at hfuel
        omega
  | object [], _, fuel, rest, _, _ => by
      rw [stringify, readValue]
      rfl
  | object (field :: fields), .object hnodup hproper, fuel, rest, hfuel, _ => by
      rw [stringify, List.length_cons, List.length_append, List.length_append,
        List.length_singleton] at hfuel
      have hpos := length_stringifyMember_pos field
      obtain ⟨fuel, rfl⟩ : ∃ k, fuel = k + 1 := ⟨fuel - 1, by omega⟩
      apply readValue_object hnodup
      · apply readMember_stringify field (hproper field List.mem_cons_self)
        · omega
        · exact ends_moreMembers fields rest
      · apply readMembers_more fields fun field hmem => hproper field (List.mem_cons_of_mem _ hmem)
        omega

theorem readElements_more : (values : List (Json N)) → (∀ value ∈ values, Proper value) →
    ∀ (fuel : Nat) (rest : JsString), (moreElements values).length ≤ fuel →
      readElements (fuel + 1) (moreElements values ++ rightBracket :: rest) = some (values, rest)
  | [], _, fuel, rest, _ => by
      rw [moreElements, readElements]
      rfl
  | value :: values, hproper, fuel, rest, hfuel => by
      have hpos := length_stringify_pos value
      rw [moreElements, List.length_cons, List.length_append] at hfuel
      obtain ⟨fuel, rfl⟩ : ∃ k, fuel = k + 1 := ⟨fuel - 1, by omega⟩
      rw [moreElements, List.cons_append, List.append_assoc]
      apply readElements_cons
      · apply readValue_stringify value (hproper value List.mem_cons_self)
        · omega
        · exact ends_moreElements values rest
      · apply readElements_more values fun value hmem => hproper value (List.mem_cons_of_mem _ hmem)
        omega

theorem readMember_stringify : (member : JsString × Json N) → member.2.Proper →
    ∀ (fuel : Nat) (rest : JsString), (stringifyMember member).length ≤ fuel → Ends rest →
      readMember fuel (stringifyMember member ++ rest) = some (member, rest)
  | (key, value), hproper, fuel, rest, hfuel, hrest => by
      have hquote := length_quote key
      rw [stringifyMember, List.length_append, List.length_cons] at hfuel
      obtain ⟨fuel, rfl⟩ : ∃ k, fuel = k + 2 := ⟨fuel - 2, by omega⟩
      apply readMember_of_value
      apply readValue_stringify value hproper
      · omega
      · exact hrest

theorem readMembers_more : (members : List (JsString × Json N)) →
    (∀ member ∈ members, Proper member.2) → ∀ (fuel : Nat) (rest : JsString),
      (moreMembers members).length ≤ fuel →
        readMembers (fuel + 1) (moreMembers members ++ rightBrace :: rest) =
          some (members, rest)
  | [], _, fuel, rest, _ => by
      rw [moreMembers, readMembers]
      rfl
  | member :: members, hproper, fuel, rest, hfuel => by
      have hpos := length_stringifyMember_pos member
      rw [moreMembers, List.length_cons, List.length_append] at hfuel
      obtain ⟨fuel, rfl⟩ : ∃ k, fuel = k + 1 := ⟨fuel - 1, by omega⟩
      rw [moreMembers, List.cons_append, List.append_assoc]
      apply readMembers_cons
      · apply readMember_stringify member (hproper member List.mem_cons_self)
        · omega
        · exact ends_moreMembers members rest
      · apply readMembers_more members fun member hmem =>
          hproper member (List.mem_cons_of_mem _ hmem)
        omega

end

/-- `JSON.parse(JSON.stringify(value))` -/
theorem parse_stringify {value : Json N} (h : value.Proper) :
    parse (stringify value) = some value := by
  have hread := readValue_stringify value h (stringify value).length [] (Nat.le_succ _)
    (fun _ _ heq => by cases heq)
  rw [List.append_nil] at hread
  rw [parse, hread]
  rfl

/-! ## A text is not its own value -/

theorem length_skip (text : JsString) : (skip text).length ≤ text.length := by
  induction text with
  | nil => exact Nat.le_refl 0
  | cons c rest ih =>
      rw [skip]
      split_ifs
      · exact Nat.le_succ_of_le ih
      · exact Nat.le_refl _

theorem readWord_ne_string (text value rest : JsString) :
    (readWord text : Option (Json N × JsString)) ≠ some (string value, rest) := by
  intro h
  unfold readWord at h
  split_ifs at h
  · cases h
  · cases h
  · cases h
  · obtain ⟨n, -, heq⟩ := Option.map_eq_some_iff.mp h
    cases heq

theorem length_of_readValue {fuel : Nat} {text value rest : JsString}
    (h : (readValue fuel text : Option (Json N × JsString)) = some (string value, rest)) :
    value.length < text.length := by
  cases fuel with
  | zero => cases h
  | succ fuel =>
      have hskip := length_skip text
      rw [readValue] at h
      split at h
      · cases h
      · rename_i c tail htext
        rw [htext, List.length_cons] at hskip
        split_ifs at h
        · obtain ⟨⟨read, after⟩, hread, heq⟩ := Option.map_eq_some_iff.mp h
          have hlt := length_readString hread
          obtain ⟨rfl, rfl⟩ : read = value ∧ after = rest := by simpa using heq
          omega
        · split at h
          · cases h
          · split_ifs at h
            · cases h
            · obtain ⟨_, -, h⟩ := Option.bind_eq_some_iff.mp h
              obtain ⟨_, -, h⟩ := Option.bind_eq_some_iff.mp h
              cases h
        · split at h
          · cases h
          · split_ifs at h
            · cases h
            · obtain ⟨_, -, h⟩ := Option.bind_eq_some_iff.mp h
              obtain ⟨_, -, h⟩ := Option.bind_eq_some_iff.mp h
              cases h
        · exact absurd h (readWord_ne_string _ _ _)

theorem length_of_parse {text value : JsString}
    (h : (parse text : Option (Json N)) = some (string value)) : value.length < text.length := by
  unfold parse at h
  split at h
  · rename_i parsed rest hread
    split_ifs at h
    cases h
    exact length_of_readValue hread
  · cases h

theorem parse_ne_self (text : JsString) : (parse text : Option (Json N)) ≠ some (string text) := by
  intro h
  exact Nat.lt_irrefl _ (length_of_parse h)

end Values

end Json
