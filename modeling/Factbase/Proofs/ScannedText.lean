import Factbase.Rule.Scanner
import Factbase.Proofs.TokenPlaces

/-! # Scanned text

A scan at a byte position does what a reader does with the text after it. It *follows* the reader
(`Scan.Follows`) where it ends at the position at which the reader's rest starts, with the same
result, or fails with the same fault there. It then comes to an end, and all positions that it moves
to or divides the text at are between two characters.

What two scans follow, they follow one after the other (`Scan.Follows.bind`). A loop follows a
reader where each of its rounds takes some text and leaves the same to do, or is the last one
(`Scan.follows_loop`). White space, names, quoted texts and numbers are scanned in this way as
they are read. -/

namespace Factbase

namespace Text

/-- A text is divided where the bytes of the characters in front end. -/
theorem divide?_append (front rest : List Char) :
    divide? (front ++ rest) (byteLength front) = some (front, rest) := by
  induction front with
  | nil => cases rest <;> rfl
  | cons c front ih =>
    have hc := c.utf8Size_pos
    obtain ⟨n, hn⟩ : ∃ n, byteLength (c :: front) = n + 1 :=
      ⟨byteLength (c :: front) - 1, by rw [byteLength_cons]; omega⟩
    rw [hn, List.cons_append, divide?, ← hn, byteLength_cons, if_neg (by omega),
      Nat.add_sub_cancel_left, ih, Option.map_some]

/-- A text is divided between two of its characters, or at one of its ends. -/
theorem divide?_eq_some {text front rest : List Char} {position : Nat} :
    divide? text position = some (front, rest) ↔
      text = front ++ rest ∧ position = byteLength front := by
  constructor
  · intro h
    induction text, position using divide?.induct generalizing front with
    | case1 text =>
      obtain ⟨rfl, rfl⟩ : [] = front ∧ text = rest := by
        cases text <;> simpa [divide?] using h
      exact ⟨rfl, rfl⟩
    | case2 => simp [divide?] at h
    | case3 c text n hlt => simp [divide?, hlt] at h
    | case4 c text n hle ih =>
      rw [divide?, if_neg hle, Option.map_eq_some_iff] at h
      obtain ⟨⟨front', rest'⟩, hdivide, heq⟩ := h
      obtain ⟨rfl, rfl⟩ := Prod.mk.inj heq
      obtain ⟨rfl, hposition⟩ := ih hdivide
      refine ⟨rfl, ?_⟩
      rw [byteLength_cons]
      omega
  · rintro ⟨rfl, rfl⟩
    exact divide?_append front rest

theorem isValid_iff {text : String} {position : String.Pos.Raw} : position.IsValid text ↔
    ∃ front rest, text.toList = front ++ rest ∧ position.byteIdx = byteLength front := by
  rw [String.Pos.Raw.isValid_iff_exists_append]
  constructor
  · rintro ⟨front, rest, rfl, rfl⟩
    exact ⟨front.toList, rest.toList, String.toList_append, (byteLength_toList front).symm⟩
  · rintro ⟨front, rest, htext, hposition⟩
    refine ⟨String.ofList front, String.ofList rest, ?_, ?_⟩
    · rw [← String.ofList_append, ← htext, String.ofList_toList]
    · rw [String.Pos.Raw.ext_iff, hposition, String.byteIdx_rawEndPos, ← byteLength_toList,
        String.toList_ofList]

/-- The positions at which a text is divided are its valid positions. -/
theorem isSome_divide?_iff {text : String} {position : String.Pos.Raw} :
    (divide? text.toList position.byteIdx).isSome ↔ position.IsValid text := by
  rw [isValid_iff, Option.isSome_iff_exists]
  constructor
  · rintro ⟨⟨front, rest⟩, h⟩
    exact ⟨front, rest, divide?_eq_some.1 h⟩
  · rintro ⟨front, rest, h⟩
    exact ⟨(front, rest), divide?_eq_some.2 h⟩

example : divide? ['é', 'x'] 1 = none ∧ divide? ['é', 'x'] 2 = some (['é'], ['x']) := by decide

end Text

namespace Scan

variable {α β σ : Type} {front rest left : List Char} {i j k n : Nat}
  {scan : Scan α} {f : α → Scan β} {a : α} {c : Char} {fault : ReadFault}

/-! ## Runs -/

section Run

variable {input : ScanInput} {limit position next : Nat}

theorem run_bind_ok (h : scan.run input position = some (.ok (a, next))) :
    (scan >>= f).run input position = (f a).run input next := by
  have hscan : scan input position = some (.ok (a, next)) := h
  show (scan >>= f) input position = f a input next
  simp only [bind, ReaderT.bind, StateT.bind, ExceptT.bind, ExceptT.mk, hscan, Option.bind,
    ExceptT.bindCont]

theorem run_bind_error {e : RuleError} (h : scan.run input position = some (.error e)) :
    (scan >>= f).run input position = some (.error e) := by
  have hscan : scan input position = some (.error e) := h
  show (scan >>= f) input position = some (.error e)
  simp only [bind, ReaderT.bind, StateT.bind, ExceptT.bind, ExceptT.mk, hscan, Option.bind,
    ExceptT.bindCont]
  rfl

theorem run_get : Scan.run get input position = some (.ok (position, position)) := rfl

theorem run_read : Scan.run read input position = some (.ok (input, position)) := rfl

theorem run_liftM {x : Option α} (h : x = some a) :
    Scan.run (liftM x) input position = some (.ok (a, position)) := by
  subst h
  rfl

theorem run_textAt : (textAt (Text.byteLength front)).run ⟨front ++ rest, limit⟩ position =
    some (.ok (rest, position)) := by
  rw [textAt, run_bind_ok run_read, run_bind_ok (run_liftM (Text.divide?_append front rest))]
  rfl

theorem run_rest : Scan.rest.run ⟨front ++ rest, limit⟩ (Text.byteLength front) =
    some (.ok (rest, Text.byteLength front)) := by
  rw [Scan.rest, run_bind_ok run_get, run_textAt]

theorem run_peek : peek.run ⟨front ++ rest, limit⟩ (Text.byteLength front) =
    some (.ok (rest.head?, Text.byteLength front)) := by
  rw [peek, run_bind_ok run_rest]
  rfl

theorem run_moveTo : (moveTo (Text.byteLength front)).run ⟨front ++ rest, limit⟩ position =
    some (.ok ((), Text.byteLength front)) := by
  rw [moveTo, run_bind_ok run_textAt]
  rfl

theorem run_failAt :
    (failAt (Text.byteLength front) fault : Scan α).run ⟨front ++ rest, limit⟩ position =
      some (.error (.unreadable (Text.byteLength front) fault rest.head?)) := by
  rw [failAt, run_bind_ok run_textAt]
  rfl

end Run

/-! ## Following a reader -/

/-- What a reader gives. -/
abbrev Reading (α : Type) := Except ReadFailure (α × List Char)

/-- Whether a scan that starts after some text, at a rest, does what a reader does: it ends after
the text that the reader takes, which is at least `k` characters, or fails where the reader does.
Any limit will do that is greater than the length of the text. -/
inductive Follows (k : Nat) (front rest : List Char) (scan : Scan α) :
    Except ReadFailure (α × List Char) → Prop
  | ok {taken left : List Char} {a : α} (hrest : rest = taken ++ left) (hk : k ≤ taken.length)
      (hrun : ∀ limit, (front ++ rest).length < limit →
        scan.run ⟨front ++ rest, limit⟩ (Text.byteLength front) =
          some (.ok (a, Text.byteLength (front ++ taken)))) :
      Follows k front rest scan (.ok (a, left))
  | error {taken : List Char} {failure : ReadFailure} (hrest : rest = taken ++ failure.rest)
      (hrun : ∀ limit, (front ++ rest).length < limit →
        scan.run ⟨front ++ rest, limit⟩ (Text.byteLength front) =
          some (.error (.unreadable (Text.byteLength (front ++ taken)) failure.fault
            failure.rest.head?))) :
      Follows k front rest scan (.error failure)

namespace Follows

variable {r : Reading α} {r' : Reading β}

theorem mono (h : Follows k front rest scan r) (hj : j ≤ k) : Follows j front rest scan r := by
  cases h with
  | ok hrest hk hrun => exact .ok hrest (Nat.le_trans hj hk) hrun
  | error hrest hrun => exact .error hrest hrun

/-- What is left is shorter by the characters that were taken. -/
theorem length_le (h : Follows k front rest scan (.ok (a, left))) :
    left.length + k ≤ rest.length := by
  cases h with
  | ok hrest hk hrun =>
    subst hrest
    rw [List.length_append]
    omega

/-- A scan that takes nothing. -/
theorem of_run (h : ∀ limit, (front ++ rest).length < limit →
      scan.run ⟨front ++ rest, limit⟩ (Text.byteLength front) =
        some (.ok (a, Text.byteLength front))) :
    Follows 0 front rest scan (.ok (a, rest)) := by
  refine .ok (List.nil_append rest).symm (Nat.zero_le _) fun limit hlimit => ?_
  rw [h limit hlimit, List.append_nil]

theorem pure : Follows 0 front rest (pure a) (.ok (a, rest)) := of_run fun _ _ => rfl

/-- A scan after another one, which takes some text. -/
theorem bind_ok (h : Follows j front rest scan (.ok (a, left)))
    (hf : ∀ front, Follows (i - j) front left (f a) r') :
    Follows i front rest (scan >>= f) r' := by
  cases h with
  | @ok taken _ _ hrest hj hrun =>
    subst hrest
    have hnext := hf (front ++ taken)
    rw [← List.append_assoc] at hrun
    cases hnext with
    | @ok taken' left' _ hleft hk hrun' =>
      subst hleft
      have hrest : taken ++ (taken' ++ left') = taken ++ taken' ++ left' :=
        (List.append_assoc ..).symm
      refine .ok hrest ?_ fun limit hlimit => ?_
      · rw [List.length_append]
        omega
      · rw [← List.append_assoc] at hlimit ⊢
        rw [run_bind_ok (hrun limit hlimit), hrun' limit hlimit, List.append_assoc]
    | @error taken' failure hleft hrun' =>
      have hrest : taken ++ left = taken ++ taken' ++ failure.rest := by
        rw [hleft, List.append_assoc]
      refine .error hrest fun limit hlimit => ?_
      rw [← List.append_assoc] at hlimit ⊢
      rw [run_bind_ok (hrun limit hlimit), hrun' limit hlimit, List.append_assoc]

/-- Nothing is scanned after a fault. -/
theorem bind_error {failure : ReadFailure} (h : Follows j front rest scan (.error failure)) :
    Follows i front rest (scan >>= f) (.error failure) := by
  cases h with
  | error hrest hrun => exact .error hrest fun limit hlimit => run_bind_error (hrun limit hlimit)

/-- One scan after the other follows one reader after the other. -/
theorem bind {g : α × List Char → Reading β} (h : Follows j front rest scan r)
    (hf : ∀ front a left, r = .ok (a, left) → Follows (i - j) front left (f a) (g (a, left))) :
    Follows i front rest (scan >>= f) (r >>= g) := by
  cases hr : r with
  | error failure => exact (hr ▸ h).bind_error
  | ok result => exact (hr ▸ h).bind_ok fun front => hf front result.1 result.2 hr

/-- The position where a scan starts. -/
theorem get {f : Nat → Scan α} (h : Follows k front rest (f (Text.byteLength front)) r) :
    Follows k front rest (get >>= f) r := by
  cases h with
  | ok hrest hk hrun =>
    exact .ok hrest hk fun limit hlimit => (run_bind_ok run_get).trans (hrun limit hlimit)
  | error hrest hrun =>
    exact .error hrest fun limit hlimit => (run_bind_ok run_get).trans (hrun limit hlimit)

/-- The limit may be any number that is greater than the length of the text. -/
theorem limit {f : Nat → Scan α} (h : ∀ n, rest.length < n → Follows k front rest (f n) r) :
    Follows k front rest (read >>= fun input => f input.limit) r := by
  have hlength (n : Nat) (hn : (front ++ rest).length < n) : rest.length < n := by
    rw [List.length_append] at hn
    omega
  cases h _ (Nat.lt_succ_self _) with
  | @ok taken left a hrest hk _ =>
    refine .ok hrest hk fun n hn => (run_bind_ok run_read).trans ?_
    cases h n (hlength n hn) with
    | ok hrest' _ hrun =>
      rw [← List.append_cancel_right (hrest.symm.trans hrest')] at hrun
      exact hrun n hn
  | @error taken failure hrest _ =>
    refine .error hrest fun n hn => (run_bind_ok run_read).trans ?_
    cases h n (hlength n hn) with
    | error hrest' hrun =>
      rw [← List.append_cancel_right (hrest.symm.trans hrest')] at hrun
      exact hrun n hn

/-- A scan that fails where it started. -/
theorem failAt (h : Follows j front rest scan (.ok (a, left)))
    (hf : f a = Scan.failAt (Text.byteLength front) fault) :
    Follows k front rest (scan >>= f) (.error ⟨fault, rest⟩) := by
  cases h with
  | @ok taken _ _ hrest hj hrun =>
    refine .error (List.nil_append rest).symm fun limit hlimit => ?_
    rw [run_bind_ok (hrun limit hlimit), hf, run_failAt, List.append_nil]

theorem fail : Follows k front rest (fail fault : Scan α) (.error ⟨fault, rest⟩) := by
  refine .error (List.nil_append rest).symm fun limit hlimit => ?_
  rw [Scan.fail, run_bind_ok run_get, run_failAt, List.append_nil]

/-- Where a scan ends that takes some text. -/
theorem exists_run (h : Follows k front rest scan (.ok (a, left))) :
    ∃ taken, rest = taken ++ left ∧ ∀ limit, (front ++ rest).length < limit →
      scan.run ⟨front ++ rest, limit⟩ (Text.byteLength front) =
        some (.ok (a, Text.byteLength (front ++ taken))) := by
  cases h with
  | ok hrest _ hrun => exact ⟨_, hrest, hrun⟩

/-- The text that a scan has moved past. -/
theorem textSince {scan : Scan Unit} {written : List Char}
    (h : Follows j front rest scan (.ok ((), left))) (hwritten : rest = written ++ left) :
    Follows written.length front rest
      (scan >>= fun _ => Scan.textSince (Text.byteLength front)) (.ok (written, left)) := by
  cases h with
  | @ok taken _ _ hrest hj hrun =>
    obtain rfl : written = taken := List.append_cancel_right (hwritten.symm.trans hrest)
    refine .ok hrest (Nat.le_refl _) fun limit hlimit => ?_
    have hsize : Text.byteLength (front ++ written) - Text.byteLength front =
        Text.byteLength written := by
      rw [Text.byteLength_append, Nat.add_sub_cancel_left]
    rw [run_bind_ok (hrun limit hlimit), Scan.textSince, run_bind_ok run_textAt,
      run_bind_ok run_get, hsize, hrest,
      run_bind_ok (run_liftM (Text.divide?_append written left))]
    rfl

end Follows

/-! ## Characters -/

theorem follows_rest : Follows 0 front rest Scan.rest (.ok (rest, rest)) :=
  .of_run fun _ _ => run_rest

theorem follows_peek : Follows 0 front rest peek (.ok (rest.head?, rest)) :=
  follows_rest.bind_ok fun _ => .pure

/-- Moving past some of the text. -/
theorem follows_advance (taken : List Char) : Follows taken.length front (taken ++ left)
    (advance (Text.byteLength taken)) (.ok ((), left)) := by
  refine .get (.ok rfl (Nat.le_refl _) fun limit _ => ?_)
  rw [← Text.byteLength_append, ← List.append_assoc, run_moveTo]

theorem follows_bump_cons : Follows 1 front (c :: rest) bump (.ok (some c, rest)) := by
  refine follows_peek.bind_ok fun front => ?_
  have hadvance : Follows 1 front ([c] ++ rest) (advance (Text.byteLength [c])) (.ok ((), rest)) :=
    follows_advance [c]
  rw [Text.byteLength_cons] at hadvance
  exact hadvance.bind_ok fun front => .pure

theorem follows_bump_nil : Follows 0 front [] bump (.ok (none, [])) :=
  follows_peek.bind_ok fun _ => .pure

theorem follows_eat_cons : Follows 1 front (c :: rest) (eat c) (.ok (true, rest)) := by
  refine follows_peek.bind_ok fun front => ?_
  rw [List.head?_cons, if_pos rfl]
  exact follows_bump_cons.bind_ok fun front => .pure

theorem head?_ne_some (h : ∀ left, rest = c :: left → False) : rest.head? ≠ some c := by
  intro hhead
  obtain ⟨left, hleft⟩ := List.head?_eq_some_iff.1 hhead
  exact h left hleft

theorem follows_eat_of_ne (h : rest.head? ≠ some c) :
    Follows 0 front rest (eat c) (.ok (false, rest)) := by
  refine follows_peek.bind_ok fun front => ?_
  rw [if_neg h]
  exact .pure

/-- Some characters are read where the text starts with them. -/
theorem follows_eatText {expected : List Char} (h : expected.isPrefixOf rest = true) :
    Follows expected.length front rest (eatText expected)
      (.ok (true, rest.drop expected.length)) := by
  obtain ⟨left, rfl⟩ := List.isPrefixOf_iff_prefix.1 h
  refine follows_rest.bind_ok fun front => ?_
  rw [if_pos h, List.drop_left]
  exact (follows_advance expected).bind_ok fun front => .mono .pure (by omega)

theorem follows_eatText_of_not {expected : List Char} (h : ¬expected.isPrefixOf rest = true) :
    Follows 0 front rest (eatText expected) (.ok (false, rest)) := by
  refine follows_rest.bind_ok fun front => ?_
  rw [if_neg h]
  exact .pure

theorem follows_atEnd : Follows 0 front rest atEnd (.ok (rest.isEmpty, rest)) := by
  refine .of_run fun limit _ => ?_
  have hend : decide (Text.byteLength (front ++ rest) ≤ Text.byteLength front) = rest.isEmpty := by
    rw [Text.byteLength_append]
    cases rest with
    | nil => simp [Text.byteLength]
    | cons c rest =>
      have hc := c.utf8Size_pos
      rw [Text.byteLength_cons]
      exact decide_eq_false (by omega)
  rw [atEnd, run_bind_ok run_read, run_bind_ok run_get, hend]
  rfl

/-! ## Loops -/

/-- Whether a round of a loop leads to a reading: it takes some text and what is expected of the
next round leads there, or it is the last one, or it fails. -/
inductive RoundFollows (front rest : List Char) (round : Scan (Round σ α))
    (expected : σ → List Char → Reading α → Prop) (r : Reading α) : Prop
  | again {state : σ} {left : List Char}
      (h : Follows 1 front rest round (.ok (.again state, left)))
      (hnext : expected state left r)
  | last {k : Nat} {a : α} {left : List Char}
      (h : Follows k front rest round (.ok (.last a, left)))
      (hr : r = .ok (a, left))
  | failed {k : Nat} {failure : ReadFailure} (h : Follows k front rest round (.error failure))
      (hr : r = .error failure)

/-- What a loop does after a round. -/
def goOn (loop : σ → Scan α) : Round σ α → Scan α
  | .again state => loop state
  | .last result => pure result

theorem loopWithin_succ (round : σ → Scan (Round σ α)) (state : σ) :
    loopWithin round (n + 1) state = round state >>= goOn (loopWithin round n) := by
  rw [loopWithin]
  congr 1
  funext outcome
  cases outcome <;> rfl

section Loop

variable {expected : σ → List Char → Reading α → Prop} {round : σ → Scan (Round σ α)}
  {state : σ} {r : Reading α}

/-- Rounds follow a reader where each of them does, as long as there may be more of them than
characters. -/
theorem follows_loopWithin
    (hround : ∀ front rest state r, expected state rest r →
      RoundFollows front rest (round state) expected r)
    (h : expected state rest r) (hn : rest.length < n) :
    Follows 0 front rest (loopWithin round n state) r := by
  induction n generalizing front rest state with
  | zero => omega
  | succ n ih =>
    rw [loopWithin_succ]
    -- every round but the last one takes a character
    cases hround front rest state r h with
    | again hfollows hnext =>
      have hlt := hfollows.length_le
      exact hfollows.bind_ok fun front => ih hnext (by omega)
    | last hfollows hr =>
      subst hr
      exact (hfollows.mono (Nat.zero_le _)).bind_ok fun front => .pure
    | failed hfollows hr =>
      subst hr
      exact hfollows.bind_error

/-- A loop follows a reader where its rounds do. -/
theorem follows_loop
    (hround : ∀ front rest state r, expected state rest r →
      RoundFollows front rest (round state) expected r)
    (h : expected state rest r) : Follows 0 front rest (loop round state) r :=
  .limit fun _ => follows_loopWithin hround h

end Loop

/-! ## White space and comments -/

section WhiteSpace

variable {state : Unit} {r : Reading Unit}

/-- What follows a comment. -/
def afterComment (rest : List Char) : List Char := (rest.dropWhile (· != '\n')).drop 1

theorem afterComment_cons (h : c ≠ '\n') : afterComment (c :: rest) = afterComment rest := by
  rw [afterComment, List.dropWhile_cons, if_pos (by simpa using h), afterComment]

/-- White space goes on after a comment. -/
theorem skipFrom_true (rest : List Char) :
    RuleReader.skipFrom true rest = RuleReader.skip (afterComment rest) := by
  induction rest with
  | nil => rfl
  | cons c rest ih =>
    rw [RuleReader.skipFrom, if_pos rfl]
    by_cases hc : c = '\n'
    · subst hc
      rfl
    · rw [afterComment_cons hc, ← ih, bne_iff_ne.2 hc]

/-- A round in a comment reads a character, which is the last one at the end of the line. -/
theorem roundFollows_comment (h : r = .ok ((), afterComment rest)) :
    RoundFollows front rest (commentRound state)
      (fun _ rest r => r = .ok ((), afterComment rest)) r := by
  cases rest with
  | nil => exact .last (follows_bump_nil.bind_ok (i := 0) fun _ => .pure) h
  | cons c rest =>
    have hround : Follows 1 front (c :: rest) (commentRound state)
        (.ok (if c = '\n' then .last () else .again (), rest)) :=
      follows_bump_cons.bind_ok fun _ => .pure
    by_cases hc : c = '\n'
    · subst hc
      exact .last hround h
    · rw [if_neg hc] at hround
      exact .again hround (h.trans (by rw [afterComment_cons hc]))

theorem follows_comment (h : c ≠ '\n') :
    Follows 1 front (c :: rest) (loop commentRound ()) (.ok ((), afterComment rest)) := by
  refine .limit (f := fun n => loopWithin commentRound n ()) fun n hn => ?_
  rw [List.length_cons] at hn
  obtain ⟨m, rfl⟩ : ∃ m, n = m + 1 := ⟨n - 1, by omega⟩
  have hround : Follows 1 front (c :: rest) (commentRound ()) (.ok (.again (), rest)) := by
    refine follows_bump_cons.bind_ok fun front => ?_
    simp only [if_neg h]
    exact .pure
  rw [loopWithin_succ]
  refine hround.bind_ok fun front => ?_
  exact follows_loopWithin (fun _ _ _ _ => roundFollows_comment) rfl (by omega)

/-- A round outside a comment reads a blank character or a whole comment, or is the last one. -/
theorem roundFollows_skip (h : r = .ok ((), RuleReader.skip rest)) :
    RoundFollows front rest (skipRound state)
      (fun _ rest r => r = .ok ((), RuleReader.skip rest)) r := by
  cases rest with
  | nil => exact .last (follows_peek.bind_ok (i := 0) fun _ => .pure) h
  | cons c rest =>
    rw [RuleReader.skip, RuleReader.skipFrom, if_neg Bool.false_ne_true] at h
    by_cases hblank : Text.isBlank c = true
    · rw [if_pos hblank] at h
      have hround : Follows 1 front (c :: rest) (skipRound state) (.ok (.again (), rest)) := by
        refine follows_peek.bind_ok fun front => ?_
        simp only [List.head?_cons, if_pos hblank]
        exact follows_bump_cons.bind_ok fun _ => .pure
      exact .again hround h
    rw [if_neg hblank] at h
    by_cases hc : c = '%'
    · rw [if_pos (beq_iff_eq.2 hc), skipFrom_true] at h
      have hround : Follows 1 front (c :: rest) (skipRound state)
          (.ok (.again (), afterComment rest)) := by
        refine follows_peek.bind_ok fun front => ?_
        simp only [List.head?_cons, if_neg hblank, if_pos hc]
        exact (follows_comment (by rw [hc]; decide)).bind_ok fun _ => .pure
      exact .again hround h
    · rw [if_neg (by simpa using hc)] at h
      have hround : Follows 0 front (c :: rest) (skipRound state) (.ok (.last (), c :: rest)) := by
        refine follows_peek.bind_ok fun front => ?_
        simp only [List.head?_cons, if_neg hblank, if_neg hc]
        exact .pure
      exact .last hround h

theorem follows_skip : Follows 0 front rest skip (.ok ((), RuleReader.skip rest)) :=
  follows_loop (fun _ _ _ _ => roundFollows_skip) rfl

theorem length_skip_le (rest : List Char) : (RuleReader.skip rest).length ≤ rest.length := by
  have hskip : Follows 0 [] rest skip (.ok ((), RuleReader.skip rest)) := follows_skip
  exact hskip.length_le

theorem follows_expect : Follows 1 front rest (expect c)
    ((RuleReader.expect c rest).map fun left => ((), left)) := by
  refine follows_skip.bind_ok fun front => ?_
  rw [RuleReader.expect]
  generalize RuleReader.skip rest = rest
  cases rest with
  | nil => exact (follows_eat_of_ne (by simp)).bind_ok fun _ => .fail
  | cons d rest =>
    by_cases hd : d = c
    · subst hd
      simp only [if_pos]
      exact follows_eat_cons.bind_ok fun _ => .pure
    · simp only [if_neg hd]
      exact (follows_eat_of_ne (by simpa using hd)).bind_ok fun _ => .fail

/-- What comes after a character that is expected. -/
theorem follows_expect_bind {f : Unit → Scan α}
    {g : List Char → Reading α} (hf : ∀ front left, RuleReader.expect c rest = .ok left →
      Follows (i - 1) front left (f ()) (g left)) :
    Follows i front rest (expect c >>= f) (RuleReader.expect c rest >>= g) := by
  have hexpect : Follows 1 front rest (expect c)
      ((RuleReader.expect c rest).map fun left => ((), left)) := follows_expect
  cases hreader : RuleReader.expect c rest with
  | error failure =>
    rw [hreader] at hexpect
    exact hexpect.bind_error
  | ok left =>
    rw [hreader] at hexpect
    exact hexpect.bind_ok fun front => hf front left hreader

theorem follows_expectEnd : Follows 0 front rest expectEnd
    ((RuleReader.finish () rest).map fun _ => ((), [])) := by
  refine follows_skip.bind_ok fun front => ?_
  rw [RuleReader.finish]
  generalize RuleReader.skip rest = rest
  cases rest with
  | nil => exact follows_atEnd.bind_ok fun _ => .pure
  | cons d rest => exact follows_atEnd.bind_ok fun _ => .fail

/-- At the end of what is read nothing but white space is left. -/
theorem follows_finish (a : α) : Follows 0 front rest (expectEnd >>= fun _ => pure a)
    ((RuleReader.finish a rest).map fun a => (a, [])) := by
  have hend : Follows 0 front rest expectEnd
      ((RuleReader.finish () rest).map fun _ => ((), [])) := follows_expectEnd
  rw [RuleReader.finish] at hend ⊢
  cases hskip : RuleReader.skip rest with
  | nil =>
    rw [hskip] at hend
    exact hend.bind_ok fun _ => .pure
  | cons c left =>
    rw [hskip] at hend
    exact hend.bind_error

end WhiteSpace

/-! ## Names and quoted texts -/

theorem follows_liftM {x : Option α} (h : x = some a) :
    Follows 0 front rest (liftM x) (.ok (a, rest)) :=
  .of_run fun _ _ => run_liftM h

section Name

variable {name : List Char}

theorem follows_name?_of_some (h : RuleReader.name? rest = some (name, left)) :
    Follows 1 front rest name? (.ok (some name, left)) := by
  refine follows_rest.bind_ok fun front => ?_
  cases rest with
  | nil => simp [RuleReader.name?] at h
  | cons c more =>
    rw [RuleReader.name?] at h
    split at h
    · next hstart =>
      obtain ⟨rfl, rfl⟩ := Prod.mk.inj (Option.some.inj h)
      have hrest : c :: more = (c :: more.takeWhile RuleReader.continuesName) ++
          more.dropWhile RuleReader.continuesName := by
        rw [List.cons_append, List.takeWhile_append_dropWhile]
      simp only [if_pos hstart]
      rw [hrest]
      refine (follows_advance _).bind_ok fun front => ?_
      exact (follows_liftM (Text.divide?_append _ _)).bind_ok fun _ => .mono .pure (by simp)
    · simp at h

theorem follows_name?_of_none (h : RuleReader.name? rest = none) :
    Follows 0 front rest name? (.ok (none, rest)) := by
  refine follows_rest.bind_ok fun front => ?_
  cases rest with
  | nil => exact .pure
  | cons c more =>
    rw [RuleReader.name?] at h
    split at h
    · simp at h
    · next hstart =>
      simp only [if_neg hstart]
      exact .pure

/-- Where no name stands with a parenthesis after it, the scan goes back to where it started. -/
theorem follows_calledName?_of_none
    (h : ∀ name left, RuleReader.name? rest = some (name, left) →
      (RuleReader.skip left).head? ≠ some '(') :
    Follows 0 front rest calledName? (.ok (none, rest)) := by
  cases hname : RuleReader.name? rest with
  | none => exact .get ((follows_name?_of_none hname).bind_ok fun _ => .pure)
  | some result =>
    obtain ⟨name, left⟩ := result
    have hread : Follows 1 front rest name? (.ok (some name, left)) := follows_name?_of_some hname
    obtain ⟨taken, rfl, hread⟩ := hread.exists_run
    have hskip : Follows 0 (front ++ taken) left skip (.ok ((), RuleReader.skip left)) :=
      follows_skip
    obtain ⟨gap, hgap, hskip⟩ := hskip.exists_run
    rw [List.append_assoc] at hskip
    refine .of_run fun limit hlimit => ?_
    have hpeek : peek.run ⟨front ++ (taken ++ left), limit⟩
        (Text.byteLength (front ++ taken ++ gap)) =
          some (.ok ((RuleReader.skip left).head?, Text.byteLength (front ++ taken ++ gap))) := by
      have htext : front ++ (taken ++ left) = front ++ taken ++ gap ++ RuleReader.skip left := by
        rw [← List.append_assoc, List.append_assoc _ gap, ← hgap]
      rw [htext, run_peek]
    rw [calledName?, run_bind_ok run_get, run_bind_ok (hread limit hlimit)]
    show Scan.run (skip >>= fun _ => peek >>= fun c => ite (c = some '(') _ _) _ _ = _
    rw [run_bind_ok (hskip limit hlimit), run_bind_ok hpeek, if_neg (h name left hname),
      run_bind_ok run_moveTo]
    rfl

theorem follows_calledName?_of_some {inner : List Char}
    (h : RuleReader.name? rest = some (name, left)) (hleft : RuleReader.skip left = '(' :: inner) :
    Follows 1 front rest calledName? (.ok (some name, '(' :: inner)) := by
  refine .get ((follows_name?_of_some h).bind_ok fun front => follows_skip.bind_ok fun front => ?_)
  rw [hleft]
  exact follows_peek.bind_ok fun _ => .pure

end Name

section Quoted

variable {body : List Char}

/-- What is read of a quoted text after some of it, and what is left. -/
def restOfQuoted (body rest : List Char) : Option (List Char) × List Char :=
  match RuleReader.stringBody? rest with
  | some (more, left) => (some (body ++ more), left)
  | none => (none, [])

/-- A round in a quoted text reads a character, or a backslash and the one after it. -/
theorem roundFollows_quoted {r : Reading (Option (List Char))}
    (h : r = .ok (restOfQuoted body rest)) : RoundFollows front rest (quotedRound body)
      (fun body rest r => r = .ok (restOfQuoted body rest)) r := by
  subst h
  cases rest with
  | nil => exact .last (follows_bump_nil.bind_ok (i := 0) fun _ => .pure) rfl
  | cons c rest =>
    by_cases hquote : c = '"'
    · have hround : Follows 1 front (c :: rest) (quotedRound body)
          (.ok (.last (some body), rest)) := by
        refine follows_bump_cons.bind_ok fun front => ?_
        simp only [if_pos hquote]
        exact .pure
      refine .last hround ?_
      simp [restOfQuoted, hquote, RuleReader.stringBody?]
    by_cases hslash : c = '\\'
    · cases rest with
      | nil =>
        have hround : Follows 1 front [c] (quotedRound body) (.ok (.last none, [])) := by
          refine follows_bump_cons.bind_ok fun front => ?_
          simp only [if_neg hquote, if_pos hslash]
          exact follows_bump_nil.bind_ok fun _ => .pure
        refine .last hround ?_
        simp [restOfQuoted, hslash, RuleReader.stringBody?]
      | cons d rest =>
        have hround : Follows 2 front (c :: d :: rest) (quotedRound body) (.ok (.again (body ++
            [if d = 'n' then '\n' else if d = 't' then '\t' else d]), rest)) := by
          refine follows_bump_cons.bind_ok fun front => ?_
          simp only [if_neg hquote, if_pos hslash]
          exact follows_bump_cons.bind_ok fun _ => .pure
        refine .again (hround.mono (by omega)) ?_
        simp only [restOfQuoted, hslash, RuleReader.stringBody?]
        cases RuleReader.stringBody? rest <;> simp
    · have hround : Follows 1 front (c :: rest) (quotedRound body)
          (.ok (.again (body ++ [c]), rest)) := by
        refine follows_bump_cons.bind_ok fun front => ?_
        simp only [if_neg hquote, if_neg hslash]
        exact .pure
      refine .again hround ?_
      have hbody : RuleReader.stringBody? (c :: rest) =
          (RuleReader.stringBody? rest).map fun read => (c :: read.1, read.2) := by
        rw [RuleReader.stringBody?] <;> simp_all
      rw [restOfQuoted, hbody, restOfQuoted]
      cases RuleReader.stringBody? rest <;> simp

/-- A quoted text is read from its opening quote. -/
theorem follows_quotedText : Follows 1 front ('"' :: rest) quotedText
    (match RuleReader.stringBody? rest with
      | some (body, left) => .ok (body, left)
      | none => RuleReader.fail .unterminatedText ('"' :: rest)) := by
  have hread : Follows 1 front ('"' :: rest) quotedText? (.ok (restOfQuoted [] rest)) :=
    follows_bump_cons.bind_ok fun front => follows_loop (fun _ _ _ _ => roundFollows_quoted) rfl
  refine .get ?_
  rw [restOfQuoted] at hread
  cases hbody : RuleReader.stringBody? rest with
  | none =>
    rw [hbody] at hread
    exact hread.failAt rfl
  | some result =>
    rw [hbody] at hread
    exact hread.bind_ok fun _ => .pure

end Quoted

/-! ## Numbers -/

theorem roundFollows_digits {state : Unit} {r : Reading Unit}
    (h : r = .ok ((), rest.dropWhile Text.isDigit)) :
    RoundFollows front rest (digitsRound state)
      (fun _ rest r => r = .ok ((), rest.dropWhile Text.isDigit)) r := by
  cases rest with
  | nil => exact .last (follows_peek.bind_ok (i := 0) fun _ => .pure) h
  | cons c rest =>
    rw [List.dropWhile_cons] at h
    by_cases hdigit : Text.isDigit c = true
    · rw [if_pos hdigit] at h
      have hround : Follows 1 front (c :: rest) (digitsRound state) (.ok (.again (), rest)) := by
        refine follows_peek.bind_ok fun front => ?_
        simp only [List.head?_cons, if_pos hdigit]
        exact follows_bump_cons.bind_ok fun _ => .pure
      exact .again hround h
    · rw [if_neg hdigit] at h
      have hround : Follows 0 front (c :: rest) (digitsRound state)
          (.ok (.last (), c :: rest)) := by
        refine follows_peek.bind_ok fun front => ?_
        simp only [List.head?_cons, if_neg hdigit]
        exact .pure
      exact .last hround h

theorem follows_digits : Follows 0 front rest digits (.ok ((), rest.dropWhile Text.isDigit)) :=
  follows_loop (fun _ _ _ _ => roundFollows_digits) rfl

/-- The point and the digits after the whole part of a number. -/
def fractionPart : List Char → List Char
  | '.' :: d :: rest =>
    if Text.isDigit d then '.' :: (d :: rest).takeWhile Text.isDigit else []
  | _ => []

theorem follows_fraction (rest : List Char) : ∃ left, rest = fractionPart rest ++ left ∧
    ∀ front, Follows 0 front rest fraction (.ok ((), left)) := by
  by_cases hpoint : rest.head? = some '.'
  · obtain ⟨more, rfl⟩ := List.head?_eq_some_iff.1 hpoint
    have hrun {r : Reading Unit} (h : ∀ front,
        Follows 0 front ('.' :: more)
          (if more.head?.any Text.isDigit then bump >>= fun _ => digits else pure ()) r) :
        ∀ front, Follows 0 front ('.' :: more) fraction r := by
      refine fun front => follows_rest.bind_ok fun front => ?_
      rw [if_pos hpoint]
      exact (follows_liftM (Text.divide?_append ['.'] more)).bind_ok h
    by_cases hdigit : more.head?.any Text.isDigit = true
    · refine ⟨more.dropWhile Text.isDigit, ?_, hrun fun front => ?_⟩
      · cases more with
        | nil => simp at hdigit
        | cons d more =>
          have hd : Text.isDigit d = true := by simpa using hdigit
          rw [fractionPart, if_pos hd, List.cons_append, List.takeWhile_append_dropWhile]
      · rw [if_pos hdigit]
        exact follows_bump_cons.bind_ok fun _ => follows_digits
    · refine ⟨'.' :: more, ?_, hrun fun front => ?_⟩
      · cases more with
        | nil => rfl
        | cons d more =>
          have hd : ¬Text.isDigit d = true := by simpa using hdigit
          rw [fractionPart, if_neg hd, List.nil_append]
      · rw [if_neg hdigit]
        exact .pure
  · refine ⟨rest, ?_, fun front => follows_rest.bind_ok fun front => ?_⟩
    · unfold fractionPart
      split
      · simp at hpoint
      · rfl
    · rw [if_neg hpoint]
      exact .pure

/-- A sign is read where there is one. -/
theorem follows_sign (rest : List Char) : ∃ read left,
    rest = (rest.take 1).filter (· == '-') ++ left ∧
      ∀ front, Follows 0 front rest (eat '-') (.ok (read, left)) := by
  by_cases hsign : rest.head? = some '-'
  · obtain ⟨more, rfl⟩ := List.head?_eq_some_iff.1 hsign
    exact ⟨true, more, rfl, fun _ => follows_eat_cons.mono (Nat.zero_le _)⟩
  · refine ⟨false, rest, ?_, fun _ => follows_eat_of_ne hsign⟩
    cases rest with
    | nil => rfl
    | cons c rest =>
      have hc : (c == '-') = false := by simpa using hsign
      rw [List.take_one, List.head?_cons, Option.toList_some, List.filter_singleton, hc]
      rfl

/-- A number in its parts, and what is left after each. -/
theorem leadingNumeral_eq {sign unsigned : List Char}
    (hsign : (rest.take 1).filter (· == '-') = sign) (hrest : rest = sign ++ unsigned) :
    Number.leadingNumeral rest = sign ++ unsigned.takeWhile Text.isDigit ++
      fractionPart (unsigned.dropWhile Text.isDigit) := by
  have hunfold : Number.leadingNumeral rest =
      (rest.take 1).filter (· == '-') ++
        (rest.drop ((rest.take 1).filter (· == '-')).length).takeWhile Text.isDigit ++
        fractionPart (rest.drop (((rest.take 1).filter (· == '-')).length +
          ((rest.drop ((rest.take 1).filter (· == '-')).length).takeWhile Text.isDigit).length)) :=
    rfl
  have hunsigned : rest.drop sign.length = unsigned := by rw [hrest, List.drop_left]
  have hdrop : unsigned.drop (unsigned.takeWhile Text.isDigit).length =
      unsigned.dropWhile Text.isDigit := by
    have happend := List.takeWhile_append_dropWhile (p := Text.isDigit) (l := unsigned)
    exact (congrArg _ happend.symm).trans List.drop_left
  rw [hunfold, hsign, ← List.drop_drop, hunsigned, hdrop]

theorem follows_passNumeral (rest : List Char) : ∃ left,
    rest = Number.leadingNumeral rest ++ left ∧
      ∀ front, Follows 0 front rest passNumeral (.ok ((), left)) := by
  obtain ⟨read, unsigned, hsign, hread⟩ := follows_sign rest
  obtain ⟨left, hleft, hfraction⟩ := follows_fraction (unsigned.dropWhile Text.isDigit)
  refine ⟨left, ?_, fun front => ?_⟩
  · rw [leadingNumeral_eq rfl hsign, List.append_assoc, ← hleft, List.append_assoc,
      List.takeWhile_append_dropWhile]
    exact hsign
  · exact (hread front).bind_ok fun _ => follows_digits.bind_ok hfraction

/-- The characters of a number are those that the reader takes for one. -/
theorem follows_numeral : Follows (Number.leadingNumeral rest).length front rest numeral
    (.ok (Number.leadingNumeral rest, rest.drop (Number.leadingNumeral rest).length)) := by
  obtain ⟨left, hleft, hpass⟩ := follows_passNumeral rest
  have hdrop : rest.drop (Number.leadingNumeral rest).length = left :=
    (congrArg _ hleft).trans List.drop_left
  rw [hdrop]
  exact .get ((hpass front).textSince hleft)

/-- A number is read as the reader does, and it takes a character. -/
theorem follows_number : Follows 1 front rest number (RuleReader.number rest) := by
  refine .get ?_
  rw [RuleReader.number]
  cases hparse : Number.parse? (Number.leadingNumeral rest) with
  | none =>
    refine follows_numeral.failAt ?_
    simp only [hparse]
  | some x =>
    have hpos : 0 < (Number.leadingNumeral rest).length := by
      rw [List.length_pos_iff]
      intro hnil
      have hnone : Number.parse? [] = none := by decide
      rw [hnil, hnone] at hparse
      simp at hparse
    refine follows_numeral.bind_ok fun front => ?_
    simp only [hparse]
    exact .mono .pure (by omega)

end Scan

end Factbase
