import Factbase.Find.Reader
import Factbase.Proofs.Results

/-! # Predictions

One token decides how the reading of a query text goes on. What still has to stand in the text, or
may stand there, is a list of `Part`s; what the first part does with a kind of token is its
`Prediction`: the part takes the token and other parts have to follow, or it is left out, or it
refuses the token. Parts so take tokens one after the other (`shift`, `feed`), and what comes after
them makes no difference (`shift_append`, `feed_append`).

Every reader takes the tokens that some parts take, and stops where these refuse or are left out
(`Reader.Follows`). The readers of single tokens do so by cases, sequences because parts come one
after the other (`Reader.Follows.andThen`), and repetitions and nested terms by induction on the
number of tokens. A query follows `Part.start` (`Reader.follows_sentence`). -/

namespace Factbase.Find

/-- What may stand in a query text at some point, after a token that announces it. -/
inductive Extra where
  /-- Names of a path, each after a dot. -/
  | path
  /-- Operands, each after a comma. -/
  | operands
  /-- Terms, each after a conjunction or a disjunction. -/
  | terms
  /-- Fields, each after a comma. -/
  | fields
  | direction
  | whereClause
  | returnFields
  | orderField
  | limitNumber
deriving DecidableEq

/-- What has to stand in a query text at some point, or may stand there. -/
inductive Part where
  | word (word : Keyword)
  | entityType
  | variable
  | attrName
  | number
  | operand (allowName : Bool)
  | containedText
  | pattern
  | leftParen
  | rightParen
  /-- The test of a field, after the field. -/
  | test
  | term
  | limit
  | extra (e : Extra)
deriving DecidableEq

/-- What a part does with a kind of token. -/
inductive Prediction where
  /-- It takes the token, and other parts have to follow. -/
  | take (parts : List Part)
  /-- It is left out. -/
  | pass
  | refuse (wanted : Wanted)
deriving DecidableEq

namespace Extra

/-- Whether a token announces it. -/
def isOpened (e : Extra) (k : TokenKind) : Bool :=
  match e with
  | .path => k = .dot
  | .operands | .fields => k = .comma
  | .terms => k = .keyword .AND || k = .keyword .OR
  | .direction => k = .keyword .DESC || k = .keyword .ASC
  | .whereClause => k = .keyword .WHERE
  | .returnFields => k = .keyword .RETURN
  | .orderField => k = .keyword .ORDER
  | .limitNumber => k = .keyword .LIMIT

/-- What has to follow the announcing token. -/
def body : Extra → List Part
  | .path => [.attrName, .extra .path]
  | .operands => [.operand true, .extra .operands]
  | .terms => [.term, .extra .terms]
  | .fields => [.variable, .extra .path, .extra .fields]
  | .direction => []
  | .whereClause => [.term, .extra .terms]
  | .returnFields => [.variable, .extra .path, .extra .fields]
  | .orderField => [.word .BY, .variable, .extra .path, .extra .direction]
  | .limitNumber => [.limit]

end Extra

namespace Part

/-- What a part does with a kind of token. -/
def predict (p : Part) (k : TokenKind) : Prediction :=
  match p with
  | .word w => if k = .keyword w then .take [] else .refuse (.keyword w)
  | .entityType =>
    match k with
    | .ident _ | .keyword _ => .take []
    | _ => .refuse .entityType
  | .variable =>
    match k with
    | .var _ => .take []
    | _ => .refuse .variable
  | .attrName =>
    match k with
    | .ident _ | .keyword _ => .take []
    | _ => .refuse .attrName
  | .number =>
    match k with
    | .number _ => .take []
    | _ => .refuse .number
  | .operand allowName =>
    if (Reader.operandOf? allowName k).isSome then .take [] else .refuse .operand
  | .containedText =>
    match k with
    | .text _ => .take []
    | _ => .refuse .containedText
  | .pattern =>
    match k with
    | .regex _ _ | .text _ => .take []
    | _ => .refuse .pattern
  | .leftParen => if k = .leftParen then .take [] else .refuse (.sign .leftParen)
  | .rightParen => if k = .rightParen then .take [] else .refuse (.sign .rightParen)
  | .test =>
    match k with
    | .operator _ => .take [.operand false]
    | .keyword .BETWEEN => .take [.number, .word .AND, .number]
    | .keyword .CONTAINS => .take [.containedText]
    | .keyword .MATCHES => .take [.pattern]
    | .keyword .IN => .take [.operand false]
    | _ => .refuse .operator
  | .term =>
    match k with
    | .leftParen => .take [.term, .extra .terms, .rightParen]
    | .ident _ => .take [.leftParen, .operand true, .extra .operands, .rightParen]
    | .var _ => .take [.extra .path, .test]
    | _ => .refuse .condition
  | .limit =>
    match k with
    | .number x =>
      match Number.whole? x with
      | some (.ofNat _) => .take []
      | _ => .refuse .limit
    | _ => .refuse .number
  | .extra e => if e.isOpened k then .take e.body else .pass

/-- Whether a part is left out before a kind of token. -/
def passes (k : TokenKind) (p : Part) : Bool := p.predict k = .pass

/-- The parts of a query up to its variable. -/
def opening : List Part := [.word .FIND, .entityType, .word .AS, .variable]

/-- The parts of a query. -/
def start : List Part :=
  opening ++ [.extra .whereClause, .extra .returnFields, .extra .orderField, .extra .limitNumber]

/-- No part takes the end. -/
theorem predict_finish_ne_take (p : Part) (parts : List Part) :
    p.predict .finish ≠ .take parts := by
  cases p with
  | extra e => cases e <;> simp [predict, Extra.isOpened]
  | _ => simp [predict, Reader.operandOf?]

end Part

/-- Takes a token: parts that are left out before it go. -/
def shift (k : TokenKind) : List Part → Option (List Part)
  | [] => none
  | p :: parts =>
    match p.predict k with
    | .take new => some (new ++ parts)
    | .pass => shift k parts
    | .refuse _ => none

/-- Takes tokens one after the other. -/
def feed (parts : List Part) : List Token → Option (List Part)
  | [] => some parts
  | t :: tokens => (shift t.kind parts).bind (feed · tokens)

/-- Whether all parts are left out before a kind of token. -/
def Settled (k : TokenKind) (parts : List Part) : Prop := ∀ p ∈ parts, p.passes k = true

/-- Whether parts refuse a kind of token, and what is wanted instead. -/
def Refuses (k : TokenKind) (parts : List Part) (wanted : Wanted) : Prop :=
  ∃ skipped p rest, parts = skipped ++ p :: rest ∧ Settled k skipped ∧ p.predict k = .refuse wanted

variable {k : TokenKind} {parts before new : List Part} {tokens : List Token}

theorem shift_of_take {p : Part} (h : p.predict k = .take new) :
    shift k (p :: parts) = some (new ++ parts) := by
  simp only [shift, h]

theorem shift_of_pass {p : Part} (h : p.passes k = true) :
    shift k (p :: parts) = shift k parts := by
  have hpass : p.predict k = .pass := by simpa [Part.passes] using h
  simp only [shift, hpass]

theorem shift_of_refuse {p : Part} {wanted : Wanted} (h : p.predict k = .refuse wanted) :
    shift k (p :: parts) = none := by
  simp only [shift, h]

/-- Parts that are left out before a token make no difference to it. -/
theorem shift_append_of_settled (h : Settled k before) :
    shift k (before ++ parts) = shift k parts := by
  induction before with
  | nil => rfl
  | cons p before ih =>
    obtain ⟨hp, hbefore⟩ := List.forall_mem_cons.1 h
    rw [List.cons_append, shift_of_pass hp, ih hbefore]

/-- What comes after parts that take a token makes no difference. -/
theorem shift_append (h : shift k parts = some new) (more : List Part) :
    shift k (parts ++ more) = some (new ++ more) := by
  induction parts with
  | nil => simp [shift] at h
  | cons p parts ih =>
    cases hp : p.predict k with
    | take new' =>
      rw [shift_of_take hp, Option.some.injEq] at h
      rw [List.cons_append, shift_of_take hp, ← h, List.append_assoc]
    | pass =>
      have hpass : p.passes k = true := by simp [Part.passes, hp]
      rw [shift_of_pass hpass] at h
      rw [List.cons_append, shift_of_pass hpass, ih h]
    | refuse wanted =>
      rw [shift_of_refuse hp] at h
      simp at h

/-- What comes after parts that take tokens makes no difference. -/
theorem feed_append (h : feed parts tokens = some new) (more : List Part) :
    feed (parts ++ more) tokens = some (new ++ more) := by
  induction tokens generalizing parts with
  | nil => simpa [feed] using h
  | cons t tokens ih =>
    rw [feed, Option.bind_eq_some_iff] at h
    obtain ⟨next, hnext, hrest⟩ := h
    rw [feed, shift_append hnext]
    exact ih hrest

theorem feed_tokens_append (tokens more : List Token) :
    feed parts (tokens ++ more) = (feed parts tokens).bind (feed · more) := by
  induction tokens generalizing parts with
  | nil => rfl
  | cons t tokens ih =>
    rw [List.cons_append, feed, feed, Option.bind_assoc]
    simp only [ih]

theorem Settled.append (h : Settled k before) (h' : Settled k parts) :
    Settled k (before ++ parts) :=
  List.forall_mem_append.2 ⟨h, h'⟩

theorem Refuses.append {wanted : Wanted} (h : Settled k before) (h' : Refuses k parts wanted) :
    Refuses k (before ++ parts) wanted := by
  obtain ⟨skipped, p, rest, rfl, hskipped, hp⟩ := h'
  exact ⟨before ++ skipped, p, rest, by simp, h.append hskipped, hp⟩

theorem Refuses.append_right {wanted : Wanted} (h : Refuses k parts wanted) (more : List Part) :
    Refuses k (parts ++ more) wanted := by
  obtain ⟨skipped, p, rest, rfl, hskipped, hp⟩ := h
  exact ⟨skipped, p, rest ++ more, by simp, hskipped, hp⟩

namespace Reader

variable {α β : Type} {rest : List Token}

/-! ### Sequences of readers -/

@[simp] theorem kind_nil : kind [] = .finish := rfl

@[simp] theorem kind_cons {t : Token} : kind (t :: rest) = t.kind := rfl

/-- Two readers, one after the other. -/
def andThen (first : Reader α) (second : α → Reader β) : Reader β := fun tokens => do
  let (a, rest) ← first tokens
  second a rest

/-- Reads nothing. -/
def give (a : α) : Reader α := fun tokens => .ok (a, tokens)

theorem andThen_of_ok {first : Reader α} {second : α → Reader β} {a : α}
    (h : first tokens = .ok (a, rest)) : andThen first second tokens = second a rest := by
  rw [andThen, h]
  rfl

theorem andThen_of_error {first : Reader α} {second : α → Reader β} {r : Rejection}
    (h : first tokens = .error r) : andThen first second tokens = .error r := by
  rw [andThen, h]
  rfl

/-- A reader of a word or a sign, which has no value. -/
def silent (r : List Token → Except Rejection (List Token)) : Reader Unit := fun tokens =>
  (r tokens).map fun rest => ((), rest)

theorem keyword_bind {w : Keyword} {f : List Token → Except Rejection α} :
    (keyword w tokens >>= f) = (silent (keyword w) tokens >>= fun x => f x.2) := by
  unfold silent
  cases keyword w tokens <;> rfl

theorem sign_bind {wanted : TokenKind} {f : List Token → Except Rejection α} :
    (sign wanted tokens >>= f) = (silent (sign wanted) tokens >>= fun x => f x.2) := by
  unfold silent
  cases sign wanted tokens <;> rfl

/-! ### Readers that follow parts -/

/-- Parts take tokens up to a rest, and what they leave over is as described. -/
def Reaches (parts : List Part) (tokens rest : List Token) (IsLeft : List Part → Prop) : Prop :=
  ∃ used left, tokens = used ++ rest ∧ feed parts used = some left ∧ IsLeft left

/-- A reader takes tokens as some parts do. -/
def Follows (p : Reader α) (parts : List Part) (tokens : List Token) : Prop :=
  match p tokens with
  | .ok (_, rest) => Reaches parts tokens rest (Settled (kind rest))
  | .error r => Reaches parts tokens r.rest (Refuses (kind r.rest) · r.wanted)

variable {p q' : Reader α} {q : α → Reader β} {ps qs : List Part}

theorem follows_of_ok {a : α} (h : p tokens = .ok (a, rest)) :
    Follows p ps tokens ↔ Reaches ps tokens rest (Settled (kind rest)) := by
  simp only [Follows, h]

theorem follows_of_error {r : Rejection} (h : p tokens = .error r) :
    Follows p ps tokens ↔ Reaches ps tokens r.rest (Refuses (kind r.rest) · r.wanted) := by
  simp only [Follows, h]

/-- Parts one after the other: those that are left over at a seam are left out there. -/
theorem Reaches.append {rest' : List Token} {IsLeft : List Part → Prop}
    (h : Reaches ps tokens rest (Settled (kind rest))) (h' : Reaches qs rest rest' IsLeft)
    (hleft : ∀ before after, Settled (kind rest') before → IsLeft after →
      IsLeft (before ++ after)) :
    Reaches (ps ++ qs) tokens rest' IsLeft := by
  obtain ⟨used, left, rfl, hfeed, hsettled⟩ := h
  obtain ⟨used', left', rfl, hfeed', hleft'⟩ := h'
  have hfirst := feed_append hfeed qs
  cases used' with
  | nil =>
    obtain rfl : qs = left' := by simpa [feed] using hfeed'
    exact ⟨used, left ++ qs, rfl, hfirst, hleft _ _ hsettled hleft'⟩
  | cons t used' =>
    refine ⟨used ++ t :: used', left', (List.append_assoc ..).symm, ?_, hleft'⟩
    rw [List.cons_append, kind_cons] at hsettled
    rw [feed_tokens_append, hfirst, Option.bind_some, feed, shift_append_of_settled hsettled]
    exact hfeed'

/-- Readers one after the other follow parts one after the other. -/
theorem Follows.andThen (hp : Follows p ps tokens)
    (hq : ∀ a rest, p tokens = .ok (a, rest) → Follows (q a) qs rest) :
    Follows (andThen p q) (ps ++ qs) tokens := by
  cases h : p tokens with
  | error r =>
    obtain ⟨used, left, heq, hfeed, hrefuse⟩ := (follows_of_error h).1 hp
    exact (follows_of_error (andThen_of_error h)).2
      ⟨used, left ++ qs, heq, feed_append hfeed qs, hrefuse.append_right qs⟩
  | ok x =>
    obtain ⟨a, rest⟩ := x
    have hq := hq a rest h
    cases h' : q a rest with
    | error r =>
      rw [follows_of_error ((andThen_of_ok h).trans h')]
      exact ((follows_of_ok h).1 hp).append ((follows_of_error h').1 hq) fun _ _ => Refuses.append
    | ok x =>
      obtain ⟨b, rest'⟩ := x
      rw [follows_of_ok ((andThen_of_ok h).trans h')]
      exact ((follows_of_ok h).1 hp).append ((follows_of_ok h').1 hq) fun _ _ => Settled.append

theorem follows_give (a : α) (tokens : List Token) : Follows (give a) [] tokens :=
  ⟨[], [], rfl, rfl, by simp [Settled]⟩

/-! ### Single tokens -/

/-- A reader of one token, and a part that takes the same tokens. -/
theorem follows_of_single {part : Part}
    (h : match p tokens with
      | .ok (_, rest) => rest = tokens.tail ∧ part.predict (kind tokens) = .take []
      | .error r => r.rest = tokens ∧ part.predict (kind tokens) = .refuse r.wanted) :
    Follows p [part] tokens := by
  cases hp : p tokens with
  | error r =>
    simp only [hp] at h
    obtain ⟨hrest, hrefuse⟩ := h
    rw [follows_of_error hp, hrest]
    exact ⟨[], [part], rfl, rfl, [], part, [], rfl, by simp [Settled], hrefuse⟩
  | ok x =>
    obtain ⟨a, rest⟩ := x
    simp only [hp] at h
    obtain ⟨rfl, htake⟩ := h
    rw [follows_of_ok hp]
    cases tokens with
    | nil => exact absurd htake (Part.predict_finish_ne_take part [])
    | cons t rest =>
      rw [kind_cons] at htake
      exact ⟨[t], [], rfl, by simp [feed, shift_of_take htake], by simp [Settled]⟩

theorem follows_keyword (w : Keyword) (tokens : List Token) :
    Follows (silent (keyword w)) [.word w] tokens := by
  apply follows_of_single
  by_cases h : kind tokens = .keyword w <;>
    simp [silent, keyword, afterKeyword?, Part.predict, h, reject, Except.map]

theorem follows_leftParen (tokens : List Token) :
    Follows (silent (sign .leftParen)) [.leftParen] tokens := by
  apply follows_of_single
  by_cases h : kind tokens = .leftParen <;> simp [silent, sign, Part.predict, h, reject, Except.map]

theorem follows_rightParen (tokens : List Token) :
    Follows (silent (sign .rightParen)) [.rightParen] tokens := by
  apply follows_of_single
  by_cases h : kind tokens = .rightParen <;>
    simp [silent, sign, Part.predict, h, reject, Except.map]

theorem follows_var (tokens : List Token) : Follows var [.variable] tokens := by
  apply follows_of_single
  unfold var Part.predict
  cases kind tokens <;> simp [reject]

theorem follows_entityType (tokens : List Token) :
    Follows (name .entityType) [.entityType] tokens := by
  apply follows_of_single
  unfold name Part.predict
  cases kind tokens <;> simp [reject]

theorem follows_attrName (tokens : List Token) : Follows (name .attrName) [.attrName] tokens := by
  apply follows_of_single
  unfold name Part.predict
  cases kind tokens <;> simp [reject]

theorem follows_number (tokens : List Token) : Follows number [.number] tokens := by
  apply follows_of_single
  unfold number Part.predict
  cases kind tokens <;> simp [reject]

theorem follows_operand (allowName : Bool) (tokens : List Token) :
    Follows (operand allowName) [.operand allowName] tokens := by
  apply follows_of_single
  unfold operand Part.predict
  cases h : operandOf? allowName (kind tokens) <;> simp [reject, h]

theorem follows_containedText (f : Field) (tokens : List Token) :
    Follows (containedText f) [.containedText] tokens := by
  apply follows_of_single
  unfold containedText Part.predict
  cases kind tokens <;> simp [reject]

theorem follows_pattern (f : Field) (tokens : List Token) :
    Follows (pattern f) [.pattern] tokens := by
  apply follows_of_single
  unfold pattern Part.predict
  cases kind tokens <;> simp [reject]

theorem follows_limit (tokens : List Token) : Follows limit [.limit] tokens := by
  apply follows_of_single
  unfold limit number Part.predict
  cases kind tokens with
  | number x =>
    simp only [bind, Except.bind]
    cases Number.whole? x with
    | none => simp [reject]
    | some z => cases z <;> simp [reject, pure, Except.pure]
  | _ => simp [reject, bind, Except.bind]

/-! ### Choices and repetitions -/

/-- A reader that goes on after a token which a part takes. -/
theorem follows_of_take {part : Part} {new : List Part} {t : Token}
    (htake : part.predict t.kind = .take new) (hp : p (t :: rest) = q' rest)
    (h : Follows q' new rest) : Follows p [part] (t :: rest) := by
  have hfeed : ∀ used, feed [part] (t :: used) = feed new used := fun used => by
    rw [feed, shift_of_take htake, List.append_nil, Option.bind_some]
  cases hq : q' rest with
  | error r =>
    obtain ⟨used, left, rfl, hleft, hrefuse⟩ := (follows_of_error hq).1 h
    exact (follows_of_error (hp.trans hq)).2
      ⟨t :: used, left, rfl, (hfeed used).trans hleft, hrefuse⟩
  | ok x =>
    obtain ⟨a, rest'⟩ := x
    obtain ⟨used, left, rfl, hleft, hsettled⟩ := (follows_of_ok hq).1 h
    exact (follows_of_ok (hp.trans hq)).2
      ⟨t :: used, left, rfl, (hfeed used).trans hleft, hsettled⟩

/-- A reader that reads nothing where a part is left out. -/
theorem follows_of_pass {part : Part} {a : α} (hpass : part.passes (kind tokens) = true)
    (hp : p tokens = .ok (a, tokens)) : Follows p [part] tokens :=
  (follows_of_ok hp).2 ⟨[], [part], rfl, rfl, by simpa [Settled] using hpass⟩

/-- A reader that stops where a part refuses. -/
theorem follows_of_refuse {part : Part} {wanted : Wanted}
    (hrefuse : part.predict (kind tokens) = .refuse wanted) (hp : p tokens = reject wanted tokens) :
    Follows p [part] tokens :=
  (follows_of_error hp).2 ⟨[], [part], rfl, rfl, [], part, [], rfl, by simp [Settled], hrefuse⟩

/-- What a reader leaves over is an end of its tokens. -/
theorem Follows.length_le {a : α} (h : Follows p ps tokens) (hp : p tokens = .ok (a, rest)) :
    rest.length ≤ tokens.length := by
  obtain ⟨used, left, rfl, -⟩ := (follows_of_ok hp).1 h
  simp

/-- Elements, each after a separator. Each takes tokens, so that the bound is not reached. -/
theorem follows_following {e : Extra} {element : Reader α} {separator : TokenKind}
    (hopen : ∀ k, e.isOpened k = true ↔ k = separator) (hbody : e.body = ps ++ [.extra e])
    (hfinish : separator ≠ .finish) {n : Nat} (hn : tokens.length ≤ n)
    (helement : ∀ tokens' : List Token, tokens'.length < tokens.length →
      Follows element ps tokens') :
    Follows (following element separator n) [.extra e] tokens := by
  induction n generalizing tokens with
  | zero =>
    obtain rfl : tokens = [] := List.eq_nil_of_length_eq_zero (by omega)
    refine follows_of_pass (a := []) ?_ rfl
    have hclosed : e.isOpened .finish = false := by
      rw [Bool.eq_false_iff, ne_eq, hopen]
      exact fun h => hfinish h.symm
    simp [Part.passes, Part.predict, hclosed]
  | succ n ih =>
    by_cases hk : kind tokens = separator
    · cases tokens with
      | nil => exact absurd hk.symm hfinish
      | cons t rest =>
        rw [List.length_cons] at hn helement
        have htake : (Part.extra e).predict t.kind = .take (ps ++ [.extra e]) := by
          have hopened : e.isOpened t.kind = true := (hopen _).2 hk
          rw [Part.predict, if_pos hopened, hbody]
        have hread : following element separator (n + 1) (t :: rest) =
            andThen element (fun a => andThen (following element separator n) fun as =>
              give (a :: as)) rest := by
          rw [following, if_pos hk]
          rfl
        refine follows_of_take htake hread ?_
        have hfirst := helement rest (by omega)
        refine hfirst.andThen fun a rest' hok => ?_
        have hle := hfirst.length_le hok
        have hnext : Follows (following element separator n) [.extra e] rest' :=
          ih (by omega) fun tokens' hlt => helement tokens' (by omega)
        exact hnext.andThen fun as rest'' _ => follows_give _ _
    · refine follows_of_pass (a := []) ?_ ?_
      · have hclosed : e.isOpened (kind tokens) = false := by
          rw [Bool.eq_false_iff, ne_eq, hopen]
          exact hk
        simp [Part.passes, Part.predict, hclosed]
      · rw [following, if_neg hk]

theorem follows_path (tokens : List Token) :
    Follows (following (name .attrName) .dot tokens.length) [.extra .path] tokens := by
  have hbody : Extra.path.body = [.attrName] ++ [.extra .path] := rfl
  exact follows_following (by simp [Extra.isOpened]) hbody (by simp) (Nat.le_refl _) fun _ _ =>
    follows_attrName _

theorem field_eq : field = andThen var fun v =>
    andThen (fun rest => following (name .attrName) .dot rest.length rest) fun path =>
      give ⟨v, path⟩ := rfl

theorem follows_field (tokens : List Token) : Follows field [.variable, .extra .path] tokens := by
  rw [field_eq]
  exact (follows_var tokens).andThen fun v rest _ =>
    (follows_path rest).andThen fun path rest' _ => follows_give _ _

theorem commaSeparated_eq (element : Reader α) : commaSeparated element = andThen element fun a =>
    andThen (fun rest => following element .comma rest.length rest) fun as =>
      give (a :: as) := rfl

theorem follows_commaSeparated {e : Extra} {element : Reader α}
    (hopen : ∀ k, e.isOpened k = true ↔ k = .comma) (hbody : e.body = ps ++ [.extra e])
    (helement : ∀ tokens, Follows element ps tokens) (tokens : List Token) :
    Follows (commaSeparated element) (ps ++ [.extra e]) tokens := by
  rw [commaSeparated_eq]
  refine (helement tokens).andThen fun a rest _ => ?_
  have hothers : Follows (fun rest => following element .comma rest.length rest) [.extra e] rest :=
    follows_following hopen hbody (by simp) (Nat.le_refl _) fun _ _ => helement _
  exact hothers.andThen fun as rest' _ => follows_give _ _

theorem follows_operands (tokens : List Token) :
    Follows (commaSeparated (operand true)) [.operand true, .extra .operands] tokens := by
  have hbody : Extra.operands.body = [.operand true] ++ [.extra .operands] := rfl
  exact follows_commaSeparated (by simp [Extra.isOpened]) hbody (follows_operand true) tokens

theorem follows_fields (tokens : List Token) :
    Follows (commaSeparated field) [.variable, .extra .path, .extra .fields] tokens := by
  have hbody : Extra.fields.body = [.variable, .extra .path] ++ [.extra .fields] := rfl
  exact follows_commaSeparated (by simp [Extra.isOpened]) hbody follows_field tokens

section Tests

variable {f : Field} {t : Token}

theorem test_of_operator {op : Comparison} (h : t.kind = .operator op) :
    test f (t :: rest) = andThen (operand false) (fun o => give (.compare f op o)) rest := by
  simp only [test, kind_cons, h]
  rfl

theorem test_of_between (h : t.kind = .keyword .BETWEEN) :
    test f (t :: rest) = andThen number (fun low => andThen (silent (keyword .AND)) fun _ =>
      andThen number fun high => give (.between f low high)) rest := by
  simp only [test, kind_cons, h, keyword_bind]
  rfl

theorem test_of_contains (h : t.kind = .keyword .CONTAINS) :
    test f (t :: rest) = containedText f rest := by
  simp only [test, kind_cons, h, List.tail_cons]

theorem test_of_matches (h : t.kind = .keyword .MATCHES) :
    test f (t :: rest) = pattern f rest := by
  simp only [test, kind_cons, h, List.tail_cons]

theorem test_of_in (h : t.kind = .keyword .IN) :
    test f (t :: rest) = andThen (operand false) (fun o => give (.member f o)) rest := by
  simp only [test, kind_cons, h]
  rfl

end Tests

theorem follows_test (f : Field) (tokens : List Token) : Follows (test f) [.test] tokens := by
  cases tokens with
  | nil => exact follows_of_refuse rfl rfl
  | cons t rest =>
    have hoperand : ∀ g : Operand → Condition,
        Follows (andThen (operand false) fun o => give (g o)) [.operand false] rest := fun g =>
      (follows_operand false rest).andThen fun _ _ _ => follows_give _ _
    cases hk : t.kind with
    | operator op =>
      have htake : Part.test.predict t.kind = .take [.operand false] := by
        simp only [hk, Part.predict]
      exact follows_of_take htake (test_of_operator hk) (hoperand (.compare f op))
    | keyword w =>
      cases w with
      | BETWEEN =>
        have htake : Part.test.predict t.kind = .take [.number, .word .AND, .number] := by
          simp only [hk, Part.predict]
        refine follows_of_take htake (test_of_between hk) ?_
        exact (follows_number rest).andThen fun low rest _ =>
          (follows_keyword .AND rest).andThen fun _ rest _ =>
            (follows_number rest).andThen fun high rest _ => follows_give _ _
      | CONTAINS =>
        have htake : Part.test.predict t.kind = .take [.containedText] := by
          simp only [hk, Part.predict]
        exact follows_of_take htake (test_of_contains hk) (follows_containedText f rest)
      | MATCHES =>
        have htake : Part.test.predict t.kind = .take [.pattern] := by
          simp only [hk, Part.predict]
        exact follows_of_take htake (test_of_matches hk) (follows_pattern f rest)
      | IN =>
        have htake : Part.test.predict t.kind = .take [.operand false] := by
          simp only [hk, Part.predict]
        exact follows_of_take htake (test_of_in hk) (hoperand (.member f))
      | _ =>
        have hrefuse : Part.test.predict t.kind = .refuse .operator := by
          simp only [hk, Part.predict]
        refine follows_of_refuse hrefuse ?_
        simp only [test, kind_cons, hk]
    | _ =>
      have hrefuse : Part.test.predict t.kind = .refuse .operator := by
        simp only [hk, Part.predict]
      refine follows_of_refuse hrefuse ?_
      simp only [test, kind_cons, hk]

/-! ### Clauses -/

section Clauses

variable {element : Reader Clause}

/-- The terms that follow a first one. -/
theorem follows_clauseFrom {n : Nat} (hn : tokens.length ≤ n) (left : Clause)
    (helement : ∀ tokens' : List Token, tokens'.length < tokens.length →
      Follows element [.term] tokens') :
    Follows (clauseFrom element n left) [.extra .terms] tokens := by
  induction n generalizing tokens left with
  | zero =>
    obtain rfl : tokens = [] := List.eq_nil_of_length_eq_zero (by omega)
    exact follows_of_pass rfl rfl
  | succ n ih =>
    by_cases hk : Extra.terms.isOpened (kind tokens) = true
    · cases tokens with
      | nil => simp [Extra.isOpened] at hk
      | cons t rest =>
        rw [List.length_cons] at hn helement
        have hopened : Extra.terms.isOpened t.kind = true := hk
        have htake : (Part.extra .terms).predict t.kind = .take [.term, .extra .terms] := by
          rw [Part.predict, if_pos hopened]
          rfl
        obtain ⟨combine, hread⟩ : ∃ combine : Clause → Clause,
            clauseFrom element (n + 1) left (t :: rest) =
              andThen element (fun right => clauseFrom element n (combine right)) rest := by
          simp only [Extra.isOpened, Bool.or_eq_true, decide_eq_true_eq] at hk
          rcases hk with hk | hk
          · exact ⟨.both left, by rw [clauseFrom, hk]; rfl⟩
          · exact ⟨.either left, by rw [clauseFrom, hk]; rfl⟩
        refine follows_of_take htake hread ?_
        have hfirst := helement rest (by omega)
        refine hfirst.andThen fun right rest' hok => ?_
        have hle := hfirst.length_le hok
        exact ih (by omega) _ fun tokens' hlt => helement tokens' (by omega)
    · refine follows_of_pass (a := left) (by simp [Part.passes, Part.predict, hk]) ?_
      simp only [Extra.isOpened, Bool.or_eq_true, decide_eq_true_eq, not_or] at hk
      rw [clauseFrom]
      split
      · next h => exact absurd h hk.1
      · next h => exact absurd h hk.2
      · rfl

theorem clauseOf_eq : clauseOf element = andThen element fun left =>
    (fun rest => clauseFrom element rest.length left rest) := rfl

theorem follows_clauseOf (helement : ∀ tokens' : List Token, tokens'.length ≤ tokens.length →
      Follows element [.term] tokens') :
    Follows (clauseOf element) [.term, .extra .terms] tokens := by
  rw [clauseOf_eq]
  have hfirst := helement tokens (Nat.le_refl _)
  refine hfirst.andThen fun left rest hok => ?_
  have hle := hfirst.length_le hok
  exact follows_clauseFrom (Nat.le_refl _) left fun tokens' hlt => helement tokens' (by omega)

end Clauses

/-- Reads the operands of a call. -/
def arguments (s : String) : Reader Condition :=
  andThen (silent (sign .leftParen)) fun _ =>
  andThen (commaSeparated (operand true)) fun operands =>
    andThen (silent (sign .rightParen)) fun _ => give (.call s operands)

/-- Reads the path of a field and its test. -/
def pathAndTest (s : String) : Reader Condition :=
  andThen (fun rest => following (name .attrName) .dot rest.length rest) fun path => test ⟨s, path⟩

section Terms

variable {n : Nat} {t : Token} {s : String}

theorem term_of_leftParen (h : t.kind = .leftParen) :
    term (n + 1) (t :: rest) = andThen (clauseOf (term n)) (fun c =>
      andThen (silent (sign .rightParen)) fun _ => give c) rest := by
  simp only [term, kind_cons, h, sign_bind]
  rfl

theorem term_of_ident (h : t.kind = .ident s) :
    term (n + 1) (t :: rest) = andThen (arguments s) (fun c => give (.condition c)) rest := by
  have hcall : call (t :: rest) = arguments s rest := by
    simp only [call, name, kind_cons, h, sign_bind]
    rfl
  simp only [term, kind_cons, h, hcall]
  rfl

theorem term_of_var (h : t.kind = .var s) :
    term (n + 1) (t :: rest) = andThen (pathAndTest s) (fun c => give (.condition c)) rest := by
  have hfield : field (t :: rest) = andThen (fun rest => following (name .attrName) .dot
      rest.length rest) (fun path => give ⟨s, path⟩) rest := by
    simp only [field, var, kind_cons, h]
    rfl
  have hpredicate : predicate (t :: rest) = pathAndTest s rest := by
    simp only [predicate, hfield, pathAndTest, andThen]
    cases following (name .attrName) .dot rest.length rest <;> rfl
  simp only [term, kind_cons, h, hpredicate]
  rfl

end Terms

theorem follows_arguments (s : String) (tokens : List Token) : Follows (arguments s)
    ([.leftParen] ++ ([.operand true, .extra .operands] ++ [.rightParen])) tokens :=
  (follows_leftParen tokens).andThen fun _ rest _ =>
    (follows_operands rest).andThen fun _ rest _ =>
      (follows_rightParen rest).andThen fun _ _ _ => follows_give _ _

theorem follows_pathAndTest (s : String) (tokens : List Token) :
    Follows (pathAndTest s) ([.extra .path] ++ [.test]) tokens :=
  (follows_path tokens).andThen fun _ rest _ => follows_test _ rest

/-- A term. The bound on the nesting is not reached while tokens are left for it. -/
theorem follows_term {n : Nat} (hn : tokens.length < n) : Follows (term n) [.term] tokens := by
  induction n generalizing tokens with
  | zero => omega
  | succ n ih =>
    cases tokens with
    | nil => exact follows_of_refuse rfl rfl
    | cons t rest =>
      rw [List.length_cons] at hn
      cases hk : t.kind with
      | leftParen =>
        have htake : Part.term.predict t.kind =
            .take ([.term, .extra .terms] ++ [.rightParen]) := by
          simp only [hk, Part.predict]
          rfl
        refine follows_of_take htake (term_of_leftParen hk) ?_
        have hclause : Follows (clauseOf (term n)) [.term, .extra .terms] rest :=
          follows_clauseOf fun tokens' hle => ih (by omega)
        exact hclause.andThen fun c rest' _ =>
          (follows_rightParen rest').andThen fun _ _ _ => follows_give _ _
      | ident name =>
        have htake : Part.term.predict t.kind =
            .take ([.leftParen] ++ ([.operand true, .extra .operands] ++ [.rightParen])) := by
          simp only [hk, Part.predict]
          rfl
        refine follows_of_take htake (term_of_ident hk) ?_
        exact (follows_arguments name rest).andThen fun _ _ _ => follows_give _ _
      | var name =>
        have htake : Part.term.predict t.kind = .take ([.extra .path] ++ [.test]) := by
          simp only [hk, Part.predict]
          rfl
        refine follows_of_take htake (term_of_var hk) ?_
        exact (follows_pathAndTest name rest).andThen fun _ _ _ => follows_give _ _
      | _ =>
        have hrefuse : Part.term.predict t.kind = .refuse .condition := by
          simp only [hk, Part.predict]
        refine follows_of_refuse hrefuse ?_
        simp only [term, kind_cons, hk]

theorem follows_clause (tokens : List Token) :
    Follows clause [.term, .extra .terms] tokens := by
  have hclause : Follows (clauseOf (term (tokens.length + 1))) [.term, .extra .terms] tokens :=
    follows_clauseOf fun tokens' hle => follows_term (by omega)
  exact hclause

/-! ### Queries -/

/-- A part of a query that a keyword announces. -/
theorem follows_optional {e : Extra} {w : Keyword}
    (hopen : ∀ k, e.isOpened k = true ↔ k = .keyword w)
    (hp : ∀ tokens, Follows p e.body tokens) (tokens : List Token) :
    Follows (optional w p) [.extra e] tokens := by
  by_cases hk : kind tokens = .keyword w
  · cases tokens with
    | nil => simp at hk
    | cons t rest =>
      rw [kind_cons] at hk
      have htake : (Part.extra e).predict t.kind = .take (e.body ++ []) := by
        rw [Part.predict, if_pos ((hopen _).2 hk), List.append_nil]
      have hread : optional w p (t :: rest) = andThen p (fun a => give (some a)) rest := by
        simp only [optional, afterKeyword?, kind_cons, hk, if_true, List.tail_cons]
        rfl
      refine follows_of_take htake hread ?_
      exact (hp rest).andThen fun _ _ _ => follows_give _ _
  · have hclosed : e.isOpened (kind tokens) = false := by
      rw [Bool.eq_false_iff, ne_eq, hopen]
      exact hk
    refine follows_of_pass (a := none) (by simp [Part.passes, Part.predict, hclosed]) ?_
    simp only [optional, afterKeyword?, hk, if_false]

/-- The reader of a direction. -/
def readDirection : Reader Direction := fun tokens => .ok (direction tokens)

theorem follows_direction (tokens : List Token) :
    Follows readDirection [.extra .direction] tokens := by
  by_cases hk : Extra.direction.isOpened (kind tokens) = true
  · cases tokens with
    | nil => simp [Extra.isOpened] at hk
    | cons t rest =>
      have hopened : Extra.direction.isOpened t.kind = true := hk
      have htake : (Part.extra .direction).predict t.kind = .take [] := by
        rw [Part.predict, if_pos hopened]
        rfl
      simp only [Extra.isOpened, Bool.or_eq_true, decide_eq_true_eq] at hopened
      rcases hopened with hw | hw
      · have hread : readDirection (t :: rest) = give .desc rest := by
          simp only [readDirection, direction, kind_cons, hw]
          rfl
        exact follows_of_take htake hread (follows_give _ _)
      · have hread : readDirection (t :: rest) = give .asc rest := by
          simp only [readDirection, direction, kind_cons, hw]
          rfl
        exact follows_of_take htake hread (follows_give _ _)
  · refine follows_of_pass (a := .asc) (by simp [Part.passes, Part.predict, hk]) ?_
    simp only [Extra.isOpened, Bool.or_eq_true, decide_eq_true_eq, not_or] at hk
    unfold readDirection direction
    split
    · next h => exact absurd h hk.1
    · next h => exact absurd h hk.2
    · rfl

theorem sortField_eq : sortField = andThen (silent (keyword .BY)) fun _ => andThen field fun f =>
    andThen readDirection fun d => give ⟨f, d⟩ := by
  funext tokens
  simp only [sortField, keyword_bind]
  rfl

theorem follows_sortField (tokens : List Token) :
    Follows sortField [.word .BY, .variable, .extra .path, .extra .direction] tokens := by
  rw [sortField_eq]
  exact (follows_keyword .BY tokens).andThen fun _ rest _ =>
    (follows_field rest).andThen fun f rest _ =>
      (follows_direction rest).andThen fun d rest _ => follows_give _ _

/-- Reads the type and the variable of a query. -/
def opening : Reader (String × String) :=
  andThen (silent (keyword .FIND)) fun _ => andThen (name .entityType) fun entityType =>
    andThen (silent (keyword .AS)) fun _ => andThen var fun var => give (entityType, var)

/-- Reads a query up to its end. -/
def sentence : Reader Query :=
  andThen opening fun (entityType, var) =>
    andThen (optional .WHERE clause) fun clause =>
      andThen (optional .RETURN (commaSeparated field)) fun returns =>
        andThen (optional .ORDER sortField) fun sortField =>
          andThen (optional .LIMIT limit) fun limit =>
            give { entityType, var, clause, returns := returns.getD [], sortField, limit }

theorem query_eq (tokens : List Token) : query tokens = (do
    let (q, rest) ← sentence tokens
    if kind rest = .finish then return q else reject .queryEnd rest) := by
  simp only [query, keyword_bind, sentence, opening, andThen, give, bind_assoc]
  rfl

theorem follows_opening (tokens : List Token) : Follows opening Part.opening tokens :=
  (follows_keyword .FIND tokens).andThen fun _ rest _ =>
    (follows_entityType rest).andThen fun _ rest _ =>
      (follows_keyword .AS rest).andThen fun _ rest _ =>
        (follows_var rest).andThen fun _ _ _ => follows_give _ _

theorem follows_where (tokens : List Token) :
    Follows (optional .WHERE clause) [.extra .whereClause] tokens :=
  follows_optional (by simp [Extra.isOpened]) follows_clause tokens

theorem follows_return (tokens : List Token) :
    Follows (optional .RETURN (commaSeparated field)) [.extra .returnFields] tokens :=
  follows_optional (by simp [Extra.isOpened]) follows_fields tokens

theorem follows_order (tokens : List Token) :
    Follows (optional .ORDER sortField) [.extra .orderField] tokens :=
  follows_optional (by simp [Extra.isOpened]) follows_sortField tokens

theorem follows_limitNumber (tokens : List Token) :
    Follows (optional .LIMIT limit) [.extra .limitNumber] tokens :=
  follows_optional (by simp [Extra.isOpened]) follows_limit tokens

theorem follows_sentence (tokens : List Token) : Follows sentence Part.start tokens :=
  (follows_opening tokens).andThen fun _ rest _ =>
    (follows_where rest).andThen fun _ rest _ =>
      (follows_return rest).andThen fun _ rest _ =>
        (follows_order rest).andThen fun _ rest _ =>
          (follows_limitNumber rest).andThen fun _ _ _ => follows_give _ _

end Reader

end Factbase.Find
