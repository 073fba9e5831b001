import BlipMQ.Lib.Bytes

/-!
# Broker — subject patterns

Tokens are separated by dots. `*` stands for one token that is not empty,
`>` in last position for one or more tokens.
-/

namespace BlipMQ.Core

inductive PatternSegment where
  | literal (token : String)
  | wildcard
  deriving DecidableEq, Repr

structure SubjectPattern where
  raw : String
  segments : List PatternSegment
  hasTail : Bool
  deriving DecidableEq, Repr

inductive PatternParseError where
  | empty
  | emptyToken (pattern : String)
  | tailNotLast (pattern : String)
  deriving DecidableEq, Repr

/-- `split('.')`: a string without a dot is one token, also the empty string. -/
def tokens (s : String) : List String := (s.toList.splitOn '.').map String.ofList

namespace SubjectPattern

/-- The loop of `parse` over the tokens of `s`. -/
def parseTokens (s : String) : List String → Except PatternParseError (List PatternSegment × Bool)
  | [] => .ok ([], false)
  | tok :: rest =>
    if tok = "" then .error (.emptyToken s)
    else if tok = ">" then
      -- the tail is not stored as a segment
      if rest = [] then .ok ([], true) else .error (.tailNotLast s)
    else
      let segment := if tok = "*" then .wildcard else .literal tok
      (parseTokens s rest).map fun parsed => (segment :: parsed.1, parsed.2)

def parse (s : String) : Except PatternParseError SubjectPattern :=
  if s = "" then .error .empty
  else (parseTokens s (tokens s)).map fun parsed => ⟨s, parsed.1, parsed.2⟩

def isExact (p : SubjectPattern) : Bool := !p.hasTail && p.segments.all (· != .wildcard)

/-- `exact_subject_from_pattern`: the literals joined back together. -/
def exactSubject (p : SubjectPattern) : String :=
  ".".intercalate (p.segments.filterMap fun segment =>
    match segment with
    | .literal token => some token
    | .wildcard => none)

def matchSegments : List PatternSegment → List String → Bool
  | [], _ => true
  | _ :: _, [] => false
  | .literal token :: segments, tok :: toks => token == tok && matchSegments segments toks
  | .wildcard :: segments, tok :: toks => tok != "" && matchSegments segments toks

/-- Does the pattern match a concrete subject? -/
def «matches» (p : SubjectPattern) (subject : String) : Bool :=
  let toks := tokens subject
  let fixed := p.segments.length
  (if p.hasTail then fixed < toks.length else toks.length = fixed) &&
    matchSegments p.segments toks

/-! ## What patterns match -/

theorem join_tokens (s : String) : ".".intercalate (tokens s) = s := by
  refine String.toList_inj.mp ?_
  rw [String.toList_intercalate, tokens, List.map_map]
  have hid : String.toList ∘ String.ofList = id := by
    funext l
    exact String.toList_ofList
  rw [hid, List.map_id]
  exact List.intercalate_splitOn '.'

theorem tokens_injective {s t : String} (h : tokens s = tokens t) : s = t := by
  rw [← join_tokens s, h, join_tokens]

section Parse

variable {s : String} {p : SubjectPattern}

theorem parse_eq_ok (h : parse s = .ok p) :
    p.raw = s ∧ parseTokens s (tokens s) = .ok (p.segments, p.hasTail) := by
  unfold parse at h
  split at h
  · cases h
  · cases hparse : parseTokens s (tokens s) with
    | error e =>
      rw [hparse] at h
      cases h
    | ok parsed =>
      rw [hparse] at h
      cases h
      exact ⟨rfl, rfl⟩

variable {segments : List PatternSegment} {toks : List String} {hasTail : Bool}

/-- One round of the loop: the tail sign ends the tokens, any other token gives a
segment and leaves the rest. -/
theorem parseTokens_cons {tok : String} :
    parseTokens s (tok :: toks) = .ok (segments, hasTail) ↔
      tok ≠ "" ∧ (tok = ">" ∧ toks = [] ∧ segments = [] ∧ hasTail = true ∨
        tok ≠ ">" ∧ ∃ rest, parseTokens s toks = .ok (rest, hasTail) ∧
          segments = (if tok = "*" then .wildcard else .literal tok) :: rest) := by
  rw [parseTokens]
  by_cases hempty : tok = ""
  · simp [hempty]
  by_cases htail : tok = ">"
  · by_cases hlast : toks = []
    · simp [htail, hlast, eq_comm (a := ([] : List PatternSegment)), eq_comm (a := true)]
    · simp [htail, hlast]
  rw [if_neg hempty, if_neg htail]
  cases hrest : parseTokens s toks with
  | error e => simp [Except.map, htail]
  | ok parsed =>
    obtain ⟨rest, tail⟩ := parsed
    simp only [Except.map, Except.ok.injEq, Prod.mk.injEq, ne_eq, hempty, htail, false_and,
      not_false_eq_true, true_and, false_or]
    constructor
    · rintro ⟨rfl, rfl⟩
      exact ⟨rest, ⟨rfl, rfl⟩, rfl⟩
    · rintro ⟨_, ⟨rfl, rfl⟩, rfl⟩
      exact ⟨rfl, rfl⟩

/-- The tokens of a pattern match it, the tail sign for itself. -/
theorem parseTokens_spec (h : parseTokens s toks = .ok (segments, hasTail)) :
    matchSegments segments toks = true ∧
      toks.length = segments.length + if hasTail then 1 else 0 := by
  induction toks generalizing segments with
  | nil =>
    cases h
    exact ⟨rfl, rfl⟩
  | cons tok toks ih =>
    obtain ⟨hempty, ⟨-, rfl, rfl, rfl⟩ | ⟨-, rest, hrest, rfl⟩⟩ := parseTokens_cons.mp h
    · exact ⟨rfl, rfl⟩
    · obtain ⟨hmatch, hlen⟩ := ih hrest
      constructor
      · split
        · simp [matchSegments, hempty, hmatch]
        · simp [matchSegments, hmatch]
      · rw [List.length_cons, hlen, List.length_cons]
        omega

/-- Every pattern matches its own text. -/
theorem matches_raw (h : parse s = .ok p) : p.matches p.raw = true := by
  obtain ⟨hraw, hparse⟩ := parse_eq_ok h
  obtain ⟨hmatch, hlen⟩ := parseTokens_spec hparse
  rw [hraw]
  unfold SubjectPattern.matches
  simp only [hmatch, Bool.and_true]
  split <;> simp_all

theorem parseTokens_literals (h : parseTokens s toks = .ok (segments, false))
    (hexact : segments.all (· != .wildcard) = true) : segments = toks.map .literal := by
  induction toks generalizing segments with
  | nil =>
    cases h
    rfl
  | cons tok toks ih =>
    obtain ⟨-, ⟨-, -, -, hfalse⟩ | ⟨-, rest, hrest, rfl⟩⟩ := parseTokens_cons.mp h
    · cases hfalse
    · rw [List.all_cons, Bool.and_eq_true] at hexact
      obtain ⟨hhead, htail⟩ := hexact
      have hliteral : tok ≠ "*" := by
        rintro rfl
        cases hhead
      rw [List.map_cons, ih hrest htail, if_neg hliteral]

theorem matchSegments_literals {toks' : List String} :
    toks'.length = toks.length ∧ matchSegments (toks.map .literal) toks' = true ↔
      toks' = toks := by
  induction toks generalizing toks' with
  | nil => simp [matchSegments]
  | cons tok toks ih =>
    cases toks' with
    | nil => simp
    | cons tok' toks' =>
      simp only [List.length_cons, List.map_cons, matchSegments, Bool.and_eq_true, beq_iff_eq,
        List.cons.injEq, Nat.succ.injEq, ← ih]
      constructor
      · rintro ⟨hlen, heq, hmatch⟩
        exact ⟨heq.symm, hlen, hmatch⟩
      · rintro ⟨heq, hlen, hmatch⟩
        exact ⟨hlen, heq.symm, hmatch⟩

section Exact

variable (h : parse s = .ok p) (hexact : p.isExact = true)
include h hexact

theorem segments_of_isExact : p.hasTail = false ∧ p.segments = (tokens p.raw).map .literal := by
  obtain ⟨hraw, hparse⟩ := parse_eq_ok h
  obtain ⟨hnotail, hall⟩ := Bool.and_eq_true_iff.mp hexact
  have htail : p.hasTail = false := by simpa using hnotail
  rw [htail] at hparse
  rw [hraw]
  exact ⟨htail, parseTokens_literals hparse hall⟩

/-- A pattern without wildcards is the subject it is written as. -/
theorem exactSubject_eq_raw : p.exactSubject = p.raw := by
  have hliterals : ∀ toks : List String, (toks.map PatternSegment.literal).filterMap
      (fun segment => match segment with
        | .literal token => some token
        | .wildcard => none) = toks := by
    intro toks
    simp
  rw [exactSubject, (segments_of_isExact h hexact).2]
  exact (congrArg _ (hliterals _)).trans (join_tokens p.raw)

theorem matches_iff_of_isExact (t : String) : p.matches t = true ↔ t = p.raw := by
  obtain ⟨htail, hsegments⟩ := segments_of_isExact h hexact
  unfold SubjectPattern.matches
  simp only [htail, hsegments, List.length_map, Bool.false_eq_true, if_false, Bool.and_eq_true,
    decide_eq_true_eq]
  rw [matchSegments_literals]
  exact ⟨tokens_injective, fun heq => heq ▸ rfl⟩

end Exact

/-! ## The subject language -/

/-- The subject tokens that a list of pattern tokens stands for. -/
inductive Derives : List String → List String → Prop
  | nil : Derives [] []
  | literal {tok : String} {pattern subject : List String} (hstar : tok ≠ "*") (htail : tok ≠ ">")
      (h : Derives pattern subject) : Derives (tok :: pattern) (tok :: subject)
  | wildcard {tok : String} {pattern subject : List String} (hempty : tok ≠ "")
      (h : Derives pattern subject) : Derives ("*" :: pattern) (tok :: subject)
  | tail {subject : List String} (hsome : subject ≠ []) : Derives [">"] subject

/-- The loop gets through exactly if no token is empty and the tail sign, if there is
one, is the last. -/
theorem parseTokens_isOk (toks : List String) : (∃ parsed, parseTokens s toks = .ok parsed) ↔
    (∀ tok ∈ toks, tok ≠ "") ∧ ">" ∉ toks.dropLast := by
  induction toks with
  | nil => simp [parseTokens]
  | cons tok toks ih =>
    simp only [Prod.exists] at ih ⊢
    simp only [parseTokens_cons]
    cases toks with
    | nil =>
      by_cases htail : tok = ">" <;> simp [htail, parseTokens]
    | cons tok' toks =>
      rw [List.dropLast_cons_cons, List.forall_mem_cons, List.mem_cons, not_or, and_assoc,
        and_left_comm (b := ">" ≠ tok), ← ih]
      constructor
      · rintro ⟨segments, hasTail, hempty, ⟨-, hnil, -⟩ | ⟨htail, rest, hrest, -⟩⟩
        · cases hnil
        · exact ⟨hempty, fun h => htail h.symm, rest, hasTail, hrest⟩
      · rintro ⟨hempty, htail, rest, hasTail, hrest⟩
        exact ⟨_, hasTail, hempty, .inr ⟨fun h => htail h.symm, rest, hrest, rfl⟩⟩

/-- What `matches` tests, on the tokens of the subject. -/
def fits (segments : List PatternSegment) (hasTail : Bool) (toks : List String) : Bool :=
  (if hasTail then segments.length < toks.length else toks.length = segments.length) &&
    matchSegments segments toks

theorem fits_cons (segment : PatternSegment) (segments : List PatternSegment) (hasTail : Bool)
    (tok : String) (toks : List String) : fits (segment :: segments) hasTail (tok :: toks) =
      (matchSegments [segment] [tok] && fits segments hasTail toks) := by
  cases segment <;> cases hasTail <;> simp [fits, matchSegments, Bool.and_left_comm]

@[simp] theorem fits_cons_nil (segment : PatternSegment) (segments : List PatternSegment)
    (hasTail : Bool) : fits (segment :: segments) hasTail [] = false := by
  cases segment <;> simp [fits, matchSegments]

/-- Patterns that end without a tail sign and subjects end together. -/
theorem derives_nil {subject : List String} : Derives [] subject ↔ subject = [] := by
  constructor
  · intro h
    cases h
    rfl
  · rintro rfl
    exact .nil

/-- What the first token of a pattern stands for. -/
theorem derives_cons {tok : String} {pattern subject : List String} :
    Derives (tok :: pattern) subject ↔
      (tok = ">" ∧ pattern = [] ∧ subject ≠ []) ∨
      tok ≠ ">" ∧ ∃ tok' rest, subject = tok' :: rest ∧ Derives pattern rest ∧
        if tok = "*" then tok' ≠ "" else tok' = tok := by
  constructor
  · intro h
    cases h with
    | literal hstar htail h => exact .inr ⟨htail, tok, _, rfl, h, by simp [hstar]⟩
    | @wildcard tok' _ rest hempty h => exact .inr ⟨by decide, tok', rest, rfl, h, hempty⟩
    | tail hsome => exact .inl ⟨rfl, rfl, hsome⟩
  · rintro (⟨rfl, rfl, hsome⟩ | ⟨htail, tok', rest, rfl, h, htok⟩)
    · exact .tail hsome
    · by_cases hstar : tok = "*"
      · subst hstar
        exact .wildcard htok h
      · rw [if_neg hstar] at htok
        subst htok
        exact .literal hstar htail h

theorem fits_iff_derives (h : parseTokens s toks = .ok (segments, hasTail))
    (subject : List String) : fits segments hasTail subject = true ↔ Derives toks subject := by
  induction toks generalizing segments subject with
  | nil =>
    cases h
    rw [derives_nil]
    simp [fits, matchSegments]
  | cons tok toks ih =>
    obtain ⟨-, ⟨rfl, rfl, rfl, rfl⟩ | ⟨htail, rest, hrest, rfl⟩⟩ := parseTokens_cons.mp h
    · rw [derives_cons]
      simp [fits, matchSegments, List.length_pos_iff]
    · cases subject with
      | nil => simp [derives_cons, htail]
      | cons tok' subject =>
        rw [fits_cons, Bool.and_eq_true, ih hrest, derives_cons]
        by_cases hstar : tok = "*"
        · simp [hstar, matchSegments, and_comm]
        · simp [htail, hstar, matchSegments, and_comm, eq_comm (a := tok)]

/-- A text is a pattern exactly if it is not empty, has no empty token and the tail
sign at most as its last token; and a pattern matches the subjects whose tokens it
derives. -/
theorem parse_matches_language :
    (∀ s, (∃ p, parse s = .ok p) ↔
      s ≠ "" ∧ (∀ tok ∈ tokens s, tok ≠ "") ∧ ">" ∉ (tokens s).dropLast) ∧
    ∀ s p, parse s = .ok p → ∀ subject,
      p.matches subject = true ↔ Derives (tokens s) (tokens subject) := by
  constructor
  · intro s
    rw [← parseTokens_isOk (s := s), parse]
    by_cases hempty : s = ""
    · simp [hempty]
    rw [if_neg hempty]
    cases parseTokens s (tokens s) with
    | error e => simp [Except.map]
    | ok parsed => simp [Except.map, hempty]
  · intro s p hparse subject
    exact fits_iff_derives (parse_eq_ok hparse).2 (tokens subject)

/-- `a.*.>` is a pattern, it matches `a.b.c` and not `a.b`. -/
theorem parse_matches_language_tail : ∃ p, parse "a.*.>" = .ok p ∧
    (p.matches "a.b.c" = true ↔ Derives (tokens "a.*.>") (tokens "a.b.c")) ∧
    p.matches "a.b.c" = true ∧ p.matches "a.b" = false :=
  ⟨⟨"a.*.>", [.literal "a", .wildcard], true⟩, by decide +kernel,
    parse_matches_language.2 _ _ (by decide +kernel) _, by decide +kernel, by decide +kernel⟩

end Parse

end SubjectPattern

end BlipMQ.Core
