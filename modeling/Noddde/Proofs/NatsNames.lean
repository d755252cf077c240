import Mathlib.Data.List.Forall2
import Noddde.Brokers.NatsNames
/-!
# The names of the NATS bus

A stream has the subjects of an event if the prefix ends with a dot.  Durable names are told
apart up to the sanitized units, and up to the place of the underscore in the middle.
-/

namespace Noddde.Brokers.NatsEventBus

/-! ## Subjects -/

section Subjects

theorem pattern_append_greaterThan {words : List JsString}
    (hwords : ∀ token ∈ words, asterisk ∉ token ∧ greaterThan ∉ token) :
    pattern (words ++ [[greaterThan]]) = words.map .word ++ [.one, .any] := by
  induction words with
  | nil => rfl
  | cons token rest ih =>
      have htoken := hwords token (List.mem_cons_self ..)
      have hast : token ≠ [asterisk] := fun heq => htoken.1 (by simp [heq])
      rw [List.cons_append, pattern,
        if_neg fun hlast => List.append_ne_nil_of_right_ne_nil rest (List.cons_ne_nil _ _) hlast.2,
        if_neg hast, ih fun token htail => hwords token (List.mem_cons_of_mem _ htail)]
      rfl

/-- A filter of a text and `.>` covers the subjects that have its tokens and at least one
more. -/
theorem covers_iff {base subject : JsString} (hast : asterisk ∉ base)
    (hgreater : greaterThan ∉ base) :
    Covers (base ++ [dot] ++ [greaterThan]) subject ↔
      ∃ rest, rest ≠ [] ∧ tokens subject = tokens base ++ rest := by
  have htokens : tokens (base ++ [dot] ++ [greaterThan]) = tokens base ++ [[greaterThan]] := by
    unfold tokens
    rw [List.append_assoc, List.singleton_append, List.splitOn_append_cons_self]
    rfl
  have hpattern : pattern (tokens base ++ [[greaterThan]]) =
      (tokens base).map .word ++ [.one, .any] :=
    pattern_append_greaterThan fun token htoken =>
      ⟨fun hin => hast (List.mem_of_mem_splitOn htoken hin),
        fun hin => hgreater (List.mem_of_mem_splitOn htoken hin)⟩
  unfold Covers
  rw [htokens, hpattern, PatternWord.matches_words_append]
  constructor
  · rintro ⟨rest, heq, hrest⟩
    exact ⟨rest, PatternWord.matches_oneOrMore.mp hrest, heq⟩
  · rintro ⟨rest, hrest, heq⟩
    exact ⟨rest, heq, PatternWord.matches_oneOrMore.mpr hrest⟩

theorem covers_append_iff {base text : JsString} (hast : asterisk ∉ base)
    (hgreater : greaterThan ∉ base) :
    Covers (base ++ [dot] ++ [greaterThan]) (base ++ text) ↔ text.head? = some dot := by
  rw [covers_iff hast hgreater]
  constructor
  · rintro ⟨rest, hrest, heq⟩
    have htext := List.eq_append_of_splitOn_eq hrest heq
    rw [List.append_cancel_left htext]
    rfl
  · intro hhead
    cases text with
    | nil => cases hhead
    | cons c rest =>
        obtain rfl : c = dot := by simpa using hhead
        exact ⟨tokens rest, List.splitOn_ne_nil dot rest, List.splitOn_append_cons_self base rest⟩

theorem LegalName.head?_ne_dot {eventName : JsString} (hlegal : LegalName eventName) :
    eventName.head? ≠ some dot := by
  intro hhead
  cases eventName with
  | nil => cases hhead
  | cons c rest =>
      obtain rfl : c = dot := by simpa using hhead
      have htokens : tokens (dot :: rest) = [] :: tokens rest :=
        List.splitOn_append_cons_self [] rest
      exact (hlegal [] (htokens ▸ List.mem_cons_self ..)).1 rfl

variable {config : Config} {stream : List JsString} {eventName other : JsString}

/-- The stream that is created for a prefix with a dot at its end, and for one without. -/
theorem accepted_cases (h : config.buildSubjectsForStream = .ok stream) :
    ∃ base, stream = [base ++ [dot] ++ [greaterThan]] ∧ asterisk ∉ base ∧ greaterThan ∉ base ∧
      (config.subjectPrefix = some (base ++ [dot]) ∨
        config.subjectPrefix = some base ∧ base.getLast? ≠ some dot) := by
  unfold Config.buildSubjectsForStream at h
  cases hconfigured : config.subjectPrefix with
  | none =>
      rw [hconfigured] at h
      cases h
  | some subjectPrefix =>
      simp only [hconfigured, Option.getD_some] at h
      rw [if_neg (by rintro rfl; cases h)] at h
      split_ifs at h with hlast hwild hwild
      · obtain ⟨base, rfl⟩ := List.getLast?_eq_some_iff.mp hlast
        simp only [List.mem_append, not_or] at hwild
        exact ⟨base, (Except.ok.inj h).symm, hwild.2.1.1, hwild.2.2.1, .inl rfl⟩
      · simp only [List.mem_append, not_or] at hwild
        exact ⟨subjectPrefix, (Except.ok.inj h).symm, hwild.2.1.1, hwild.2.2.1, .inr ⟨rfl, hlast⟩⟩

/-- With a dot at the end of the prefix the stream has every subject that is built from it;
else none of a name that does not begin with a dot. -/
theorem covered_iff (h : config.buildSubjectsForStream = .ok stream) {text : JsString}
    (htext : text.head? ≠ some dot) :
    (∃ filter ∈ stream, Covers filter (config.subjectPrefix.getD [] ++ text)) ↔
      (config.subjectPrefix.getD []).getLast? = some dot := by
  obtain ⟨base, rfl, hast, hgreater, hconfigured | ⟨hconfigured, hlast⟩⟩ := accepted_cases h
  · rw [hconfigured, Option.getD_some]
    refine iff_of_true ⟨_, List.mem_singleton_self _, ?_⟩ List.getLast?_concat
    rw [List.append_assoc base [dot] text, covers_append_iff hast hgreater]
    rfl
  · rw [hconfigured, Option.getD_some]
    refine iff_of_false ?_ hlast
    rintro ⟨filter, hfilter, hcovers⟩
    rw [List.mem_singleton.mp hfilter, covers_append_iff hast hgreater] at hcovers
    exact htext hcovers

theorem subjectFor_inj : config.subjectFor eventName = config.subjectFor other ↔
    eventName = other :=
  List.append_right_inj _

theorem dlqSubjectFor_inj : config.dlqSubjectFor eventName = config.dlqSubjectFor other ↔
    eventName = other := by
  unfold Config.dlqSubjectFor
  rw [List.append_right_inj, List.append_right_inj]

theorem dlqSubjectFor_eq : config.dlqSubjectFor eventName = config.subjectFor other ↔
    other = Json.ascii "dlq." ++ eventName := by
  unfold Config.dlqSubjectFor Config.subjectFor
  rw [List.append_right_inj, eq_comm]

/-- The subjects are as they should be, if and only if the prefix ends with a dot and the
other event is not named like the dead letters. -/
theorem separates_iff (h : config.buildSubjectsForStream = .ok stream)
    (hname : LegalName eventName) :
    Separates config stream eventName other ↔
      (config.subjectPrefix.getD []).getLast? = some dot ∧
        other ≠ Json.ascii "dlq." ++ eventName := by
  constructor
  · intro hsep
    refine ⟨(covered_iff h hname.head?_ne_dot).mp (hsep.covered _ (List.mem_cons_self ..)), ?_⟩
    rintro rfl
    exact hsep.deadLetter (dlqSubjectFor_eq.mpr rfl)
  · rintro ⟨hlast, hother⟩
    have hcovered {text : JsString} (htext : text.head? ≠ some dot) :=
      (covered_iff h htext).mpr hlast
    refine ⟨?_, rfl, rfl, fun hne => ⟨?_, ?_⟩, ?_⟩
    · intro subject hsubject
      simp only [List.mem_cons, List.not_mem_nil, or_false] at hsubject
      obtain rfl | rfl | rfl | rfl := hsubject
      · exact hcovered hname.head?_ne_dot
      · exact hcovered hname.head?_ne_dot
      · exact hcovered hname.head?_ne_dot
      · exact hcovered (by simp [Json.ascii, dot])
    · exact fun heq => hne (subjectFor_inj.mp heq)
    · exact fun heq => hne (dlqSubjectFor_inj.mp heq)
    · exact fun heq => hother (dlqSubjectFor_eq.mp heq)

namespace Sample

def prefixed (subjectPrefix : String) : Config where
  consumerGroup := Json.ascii "orders"
  subjectPrefix := some (Json.ascii subjectPrefix)

theorem legalName_accountCreated : LegalName (Json.ascii "AccountCreated") := by
  have htokens : tokens (Json.ascii "AccountCreated") = [Json.ascii "AccountCreated"] := by
    decide +kernel
  have hunits : (Json.ascii "AccountCreated").all (fun c =>
      c ≠ dot ∧ c ≠ asterisk ∧ c ≠ greaterThan ∧ 0x20 < c) = true := by
    decide +kernel
  intro token htoken
  rw [htokens, List.mem_singleton] at htoken
  subst htoken
  exact ⟨by decide +kernel, fun c hc => of_decide_eq_true (List.all_eq_true.mp hunits c hc)⟩

theorem separates_iff_dot :
    Separates (prefixed "noddde.") [Json.ascii "noddde.>"] (Json.ascii "AccountCreated")
      (Json.ascii "AccountClosed") :=
  (separates_iff (by decide +kernel) legalName_accountCreated).mpr
    ⟨by decide +kernel, by decide +kernel⟩

/-- The stream of the prefix `myapp` has the subjects `myapp.>`. -/
theorem separates_normalized :
    ¬ ∀ (config : Config) (stream : List JsString) (eventName other : JsString),
      config.buildSubjectsForStream = .ok stream → LegalName eventName →
        Separates config stream eventName other := by
  intro hall
  have hsep := hall (prefixed "myapp") [Json.ascii "myapp.>"] (Json.ascii "AccountCreated")
    (Json.ascii "AccountClosed") (by decide +kernel) legalName_accountCreated
  exact absurd (hsep.covered _ (List.mem_cons_self ..)) (by decide +kernel)

end Sample

end Subjects

/-! ## Durable names -/

section DurableNames

variable {group eventName otherGroup otherName : JsString}

theorem sanitizeUnit_eq_underscore {c : UInt16} :
    (if isNameUnit c then c else underscore) = underscore ↔ IsBlank c := by
  unfold IsBlank
  split_ifs with hc
  · simp [hc]
  · simp [hc]

theorem alike_iff {c d : UInt16} :
    (if isNameUnit c then c else underscore) = (if isNameUnit d then d else underscore) ↔
      Alike c d := by
  unfold Alike
  constructor
  · intro heq
    by_cases hblank : IsBlank c
    · rw [sanitizeUnit_eq_underscore.mpr hblank, eq_comm, sanitizeUnit_eq_underscore] at heq
      exact .inr ⟨hblank, heq⟩
    · have hother : ¬ IsBlank d := by
        intro hd
        rw [sanitizeUnit_eq_underscore.mpr hd, sanitizeUnit_eq_underscore] at heq
        exact hblank heq
      simp only [IsBlank, not_or, Bool.not_eq_false] at hblank hother
      rw [if_pos hblank.2, if_pos hother.2] at heq
      exact .inl heq
  · rintro (rfl | ⟨hc, hd⟩)
    · rfl
    · rw [sanitizeUnit_eq_underscore.mpr hc, sanitizeUnit_eq_underscore.mpr hd]

theorem sanitize_eq_iff : sanitize eventName = sanitize otherName ↔
    List.Forall₂ Alike eventName otherName := by
  unfold sanitize
  rw [← List.forall₂_eq_eq_eq, List.forall₂_map_left_iff, List.forall₂_map_right_iff]
  simp only [alike_iff]

/-- Where a sanitized name has an underscore. -/
theorem sanitize_eq_append {front rest : JsString} :
    sanitize otherName = front ++ underscore :: rest ↔
      ∃ before blank after, otherName = before ++ blank :: after ∧ sanitize before = front ∧
        IsBlank blank ∧ sanitize after = rest := by
  unfold sanitize
  rw [List.map_eq_append_iff]
  constructor
  · rintro ⟨before, tail, rfl, hfront, htail⟩
    obtain ⟨blank, after, rfl, hblank, hafter⟩ := List.map_eq_cons_iff.mp htail
    exact ⟨before, blank, after, rfl, hfront, sanitizeUnit_eq_underscore.mp hblank, hafter⟩
  · rintro ⟨before, blank, after, rfl, hfront, hblank, hafter⟩
    refine ⟨before, blank :: after, rfl, hfront, ?_⟩
    rw [List.map_cons, sanitizeUnit_eq_underscore.mpr hblank, hafter]

/-- The longer group takes the place of a part of the name. -/
theorem extends_iff :
    Extends group eventName otherGroup otherName ↔
      ∃ front, group = otherGroup ++ underscore :: front ∧
        sanitize otherName = front ++ underscore :: sanitize eventName := by
  unfold Extends
  constructor
  · rintro ⟨before, blank, after, rfl, rfl, hblank, halike⟩
    exact ⟨sanitize before, rfl, sanitize_eq_append.mpr
      ⟨before, blank, after, rfl, rfl, hblank, (sanitize_eq_iff.mpr halike).symm⟩⟩
  · rintro ⟨front, rfl, hother⟩
    obtain ⟨before, blank, after, rfl, rfl, hblank, hafter⟩ := sanitize_eq_append.mp hother
    exact ⟨before, blank, after, rfl, rfl, hblank, sanitize_eq_iff.mp hafter.symm⟩

theorem append_underscore_eq {front rest front' rest' : JsString} :
    front ++ underscore :: rest = front' ++ underscore :: rest' ↔
      front = front' ∧ rest = rest' ∨
      (∃ more, front = front' ++ underscore :: more ∧ rest' = more ++ underscore :: rest) ∨
      ∃ more, front' = front ++ underscore :: more ∧ rest = more ++ underscore :: rest' := by
  constructor
  · intro heq
    obtain ⟨more, rfl, hrest⟩ | ⟨more, rfl, hrest⟩ := List.append_eq_append_iff.mp heq
    · cases more with
      | nil =>
          rw [List.nil_append, List.cons.injEq] at hrest
          exact .inl ⟨(List.append_nil front).symm, hrest.2⟩
      | cons c more =>
          rw [List.cons_append, List.cons.injEq] at hrest
          exact .inr (.inr ⟨more, by rw [hrest.1], hrest.2⟩)
    · cases more with
      | nil =>
          rw [List.nil_append, List.cons.injEq] at hrest
          exact .inl ⟨List.append_nil front', hrest.2.symm⟩
      | cons c more =>
          rw [List.cons_append, List.cons.injEq] at hrest
          exact .inr (.inl ⟨more, by rw [hrest.1], hrest.2⟩)
  · rintro (⟨rfl, rfl⟩ | ⟨more, rfl, rfl⟩ | ⟨more, rfl, rfl⟩)
    · rfl
    · simp only [List.append_assoc, List.cons_append]
    · simp only [List.append_assoc, List.cons_append]

variable {config other : Config}

theorem durableName_eq_iff : config.durableName eventName = other.durableName otherName ↔
    config.consumerGroup = other.consumerGroup ∧ List.Forall₂ Alike eventName otherName ∨
      Extends config.consumerGroup eventName other.consumerGroup otherName ∨
      Extends other.consumerGroup otherName config.consumerGroup eventName := by
  unfold Config.durableName
  rw [append_underscore_eq, sanitize_eq_iff, extends_iff, extends_iff]

theorem Extends.ne (h : Extends group eventName otherGroup otherName) : group ≠ otherGroup := by
  obtain ⟨front, hgroup, -⟩ := extends_iff.mp h
  intro heq
  rw [heq] at hgroup
  have hlength := congrArg List.length hgroup
  simp at hlength

theorem Collide.ne (h : Collide group eventName otherGroup otherName) :
    ¬ (group = otherGroup ∧ eventName = otherName) := by
  rintro ⟨hgroup, hname⟩
  obtain ⟨-, hne, -⟩ | hextends | hextends := h
  · exact hne hname
  · exact hextends.ne hgroup
  · exact hextends.ne hgroup.symm

/-- A durable name or a deliver group is that of one consumer group and one event, if and only
if the two do not collide. -/
theorem identifies_iff :
    ((config.createSubscriptionForEvent eventName).opts.durable =
          (other.createSubscriptionForEvent otherName).opts.durable ∨
        (config.createSubscriptionForEvent eventName).opts.deliverGroup =
          (other.createSubscriptionForEvent otherName).opts.deliverGroup →
      config.consumerGroup = other.consumerGroup ∧ eventName = otherName) ↔
    ¬ Collide config.consumerGroup eventName other.consumerGroup otherName := by
  have hopts : ((config.createSubscriptionForEvent eventName).opts.durable =
          (other.createSubscriptionForEvent otherName).opts.durable ∨
        (config.createSubscriptionForEvent eventName).opts.deliverGroup =
          (other.createSubscriptionForEvent otherName).opts.deliverGroup) ↔
      config.durableName eventName = other.durableName otherName := or_self_iff
  rw [hopts, durableName_eq_iff]
  constructor
  · intro hinj hcollide
    refine hcollide.ne (hinj ?_)
    obtain ⟨hgroup, -, halike⟩ | hextends := hcollide
    · exact .inl ⟨hgroup, halike⟩
    · exact .inr hextends
  · rintro hnot (⟨hgroup, halike⟩ | hextends)
    · refine ⟨hgroup, ?_⟩
      by_contra hne
      exact hnot (.inl ⟨hgroup, hne, halike⟩)
    · exact absurd (.inr hextends) hnot

namespace Sample

def ofGroup (consumerGroup : String) : Config where
  consumerGroup := Json.ascii consumerGroup

/-- Two services with one durable name. -/
theorem identifies_extended :
    ¬ ∀ (config other : Config) (eventName otherName : JsString),
      (config.createSubscriptionForEvent eventName).opts.durable =
          (other.createSubscriptionForEvent otherName).opts.durable →
        config.consumerGroup = other.consumerGroup ∧ eventName = otherName := by
  intro hall
  have hnames := hall (ofGroup "orders") (ofGroup "orders_eu") (Json.ascii "eu_Created")
    (Json.ascii "Created") (by decide +kernel)
  exact absurd hnames.2 (by decide +kernel)

end Sample

end DurableNames

end Noddde.Brokers.NatsEventBus
