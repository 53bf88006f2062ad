import Tiberius.AdoParser

/-!
The parser of connection strings by what is left of the text. Each of its loops
computes a function on the characters behind the index, and so does the parser: a
text is read as the list of its pairs.
-/

namespace Tiberius.AdoParser

open Reading Reading.Scanner

/-- The text up to the first single closing character, and what stands behind that. A
double one stands for itself, and a character that is not allowed is an error. -/
def untilSingle (close : Char) (bad : Char → Bool) (error : String) :
    List Char → Except String (List Char × List Char)
  | [] => .error error
  | c :: rest =>
    if bad c then .error error
    else if c = close then
      match rest with
      | [] => .ok ([], [])
      | d :: tail =>
        if d = close then
          (untilSingle close bad error tail).map fun found => (close :: found.1, found.2)
        else .ok ([], d :: tail)
    else (untilSingle close bad error rest).map fun found => (c :: found.1, found.2)

def keyOf : List Char → Except String (List Char × List Char) :=
  untilSingle '=' (· = ';') "key-value pairs must be joined by a `=`"

def quotedOf (quote : Char) : List Char → Except String (List Char × List Char) :=
  untilSingle quote (fun _ => false)
    (if quote = '\'' then "the connection string has an unclosed single quote"
      else "the connection string has an unclosed double quote")

def bracedOf (rest : List Char) : Except String (List Char × List Char) :=
  match rest.dropWhile (· ≠ '}') with
  | [] => .error "the connection string has an unclosed brace `\x7b`"
  | _ :: tail => .ok (rest.takeWhile (· ≠ '}'), tail)

/-- What is left behind a closed value and the whitespace behind it. -/
def trailingOf (error : String) (rest : List Char) : Except String (List Char) :=
  match rest.dropWhile isAsciiWhitespace with
  | [] => .ok []
  | c :: tail => if c = ';' then .ok (c :: tail) else .error error

def unquotedOf (rest : List Char) : List Char × List Char :=
  (trimEnd (rest.takeWhile (· ≠ ';')), rest.dropWhile (· ≠ ';'))

/-- A value from its first character on. -/
def formOf : List Char → Except String (List Char × List Char)
  | [] => .ok (unquotedOf [])
  | c :: tail =>
    if isQuote c then do
      let (v, rest) ← quotedOf c tail
      let rest ← trailingOf "unexpected characters after a quoted value" rest
      .ok (v, rest)
    else if c = '{' then do
      let (v, rest) ← bracedOf tail
      let rest ← trailingOf trailingBraced rest
      .ok (v, rest)
    else .ok (unquotedOf (c :: tail))

def valueOf (rest : List Char) : Except String (List Char × List Char) :=
  formOf (rest.dropWhile isAsciiWhitespace)

def dropSeparator : List Char → List Char
  | [] => []
  | c :: tail => if c = ';' then tail else c :: tail

/-- A key, as it stands in the map. -/
def normalKey (key : List Char) : List Char := (trim key).map Char.toLower

/-- A pair, and what is left behind it, from its separator on. -/
def pairOf (rest : List Char) : Except String ((String × String) × List Char) := do
  let (key, rest) ← keyOf rest
  if (normalKey key).isEmpty then .error "a key in the connection string is empty"
  else
    let (value, rest) ← valueOf rest
    .ok ((String.ofList (normalKey key), String.ofList value), rest)

theorem exists_of_map {α β : Type} {result : Except String α} {f : α → β} {value : β}
    (hmap : result.map f = .ok value) : ∃ inner, result = .ok inner ∧ value = f inner := by
  cases result with
  | error error => cases hmap
  | ok inner =>
    cases hmap
    exact ⟨inner, rfl, rfl⟩

section Single

variable {close : Char} {bad : Char → Bool} {error : String} {c : Char} {rest : List Char}

theorem untilSingle_bad (hbad : bad c = true) :
    untilSingle close bad error (c :: rest) = .error error := by
  cases rest <;> rw [untilSingle, if_pos hbad]

theorem untilSingle_close (hbad : bad close = false) (hrest : rest.head? ≠ some close) :
    untilSingle close bad error (close :: rest) = .ok ([], rest) := by
  cases rest with
  | nil => rw [untilSingle, hbad, if_neg Bool.false_ne_true, if_pos rfl]
  | cons d tail =>
    have hne : d ≠ close := fun heq => hrest (congrArg some heq)
    rw [untilSingle, hbad, if_neg Bool.false_ne_true, if_pos rfl, if_neg hne]

theorem untilSingle_double (hbad : bad close = false) :
    untilSingle close bad error (close :: close :: rest) =
      (untilSingle close bad error rest).map fun found => (close :: found.1, found.2) := by
  rw [untilSingle, hbad, if_neg Bool.false_ne_true, if_pos rfl, if_pos rfl]

theorem untilSingle_other (hbad : bad c = false) (hother : c ≠ close) :
    untilSingle close bad error (c :: rest) =
      (untilSingle close bad error rest).map fun found => (c :: found.1, found.2) := by
  cases rest <;> simp only [untilSingle, hbad, Bool.false_eq_true, if_false, hother]

end Single

section Loops

variable {close : Char} {bad : Char → Bool} {stops : Parser Bool} {error : String}

/-- A push onto what has been read in front. -/
def prepend (front : List Char) (found : Except String (List Char × List Char)) :
    Except String (List Char × List Char) :=
  found.map fun found => (front ++ found.1, found.2)

theorem prepend_push (front : List Char) (c : Char)
    (found : Except String (List Char × List Char)) :
    prepend front (found.map fun found => (c :: found.1, found.2)) =
      prepend (front ++ [c]) found := by
  cases found with
  | error error => rfl
  | ok found =>
    unfold prepend
    simp only [Except.map, List.append_assoc, List.singleton_append]

theorem prepend_nil (found : Except String (List Char × List Char)) : prepend [] found = found := by
  cases found <;> rfl

/-- A look at the character behind the first. -/
theorem holds_next (d c : Char) (rest : List Char) :
    Computes (holds (· = d) 1 : Parser Bool) (c :: rest)
      (.ok (decide (rest.head? = some d), c :: rest)) := by
  have hholds := @Computes.holds _ String (· = d) 1 (c :: rest)
  cases rest with
  | nil => exact hholds
  | cons e tail =>
    have hsame : (decide (e = d)) = decide ((e :: tail).head? = some d) := by
      rw [List.head?_cons, decide_eq_decide, Option.some.injEq]
    rw [← hsame]
    exact hholds

theorem singleRound_loops (hend : Computes stops [] (.ok (true, [])))
    (hstops : ∀ c rest, Computes stops (c :: rest) (.ok (bad c, c :: rest))) (v rest : List Char) :
    Computes.Loops (singleRound close stops error) v rest
      (prepend v (untilSingle close bad error rest)) := by
  induction hlength : rest.length using Nat.strong_induction_on generalizing v rest with
  | _ length ih =>
    subst hlength
    cases rest with
    | nil => exact .stop (hend.bind (.reject error []))
    | cons c rest =>
      have hstop := hstops c rest
      cases hbad : bad c with
      | true =>
        rw [untilSingle_bad hbad]
        rw [hbad] at hstop
        exact .stop (hstop.bind (.reject error _))
      | false =>
        rw [hbad] at hstop
        have hsymbol := @Computes.symbol _ String (c :: rest) 0 c rfl
        by_cases hclose : c = close
        · subst hclose
          have hnext := holds_next c c rest
          by_cases hdouble : rest.head? = some c
          · obtain ⟨tail, rfl⟩ := List.head?_eq_some_iff.mp hdouble
            rw [untilSingle_double hbad, prepend_push]
            have hshorter : tail.length < (c :: c :: tail).length := by
              simp only [List.length_cons]
              omega
            refine .again (hstop.bind (hsymbol.bind ?_)) hshorter
              (ih tail.length hshorter (v ++ [c]) tail rfl)
            rw [if_pos rfl]
            rw [decide_eq_true hdouble] at hnext
            exact hnext.bind ((Computes.forward [c, c] tail).bind (.ret _ tail))
          · have hclosed : prepend v (.ok ([], rest)) = .ok (v, rest) := by
              rw [prepend, Except.map, List.append_nil]
            rw [untilSingle_close hbad hdouble, hclosed]
            refine .leave (hstop.bind (hsymbol.bind ?_))
            rw [if_pos rfl]
            rw [decide_eq_false hdouble] at hnext
            exact hnext.bind ((Computes.forward [c] rest).bind (.ret _ rest))
        · rw [untilSingle_other hbad hclose, prepend_push]
          refine .again (hstop.bind (hsymbol.bind ?_)) (Nat.lt_succ_self _)
            (ih rest.length (Nat.lt_succ_self _) (v ++ [c]) rest rfl)
          rw [if_neg hclose]
          exact (Computes.forward [c] rest).bind (.ret _ rest)

theorem atEnd_computes (rest : List Char) :
    Computes atEnd rest (.ok (rest.isEmpty, rest)) := by
  cases rest with
  | nil => exact (Computes.inside 0 []).bind (.ret true [])
  | cons c rest => exact (Computes.inside_cons c rest).bind (.ret false _)

theorem keyStops_cons (c : Char) (rest : List Char) :
    Computes keyStops (c :: rest) (.ok (decide (c = ';'), c :: rest)) :=
  (Computes.inside_cons c rest).bind (Computes.holds (fun c => decide (c = ';')) 0 (c :: rest))

theorem scanKey_computes (rest : List Char) : Computes scanKey rest (keyOf rest) := by
  have hloops := @singleRound_loops '=' (fun c => decide (c = ';')) keyStops
    "key-value pairs must be joined by a `=`" ((Computes.inside 0 []).bind (.ret true []))
    keyStops_cons [] rest
  rw [prepend_nil] at hloops
  exact Computes.loop hloops

theorem scanQuoted_computes (quote : Char) (rest : List Char) :
    Computes (scanQuoted quote) rest (quotedOf quote rest) := by
  have hloops := @singleRound_loops quote (fun _ => false) atEnd
    (if quote = '\'' then "the connection string has an unclosed single quote"
      else "the connection string has an unclosed double quote")
    (atEnd_computes []) (fun c rest => atEnd_computes (c :: rest)) [] rest
  rw [prepend_nil] at hloops
  exact Computes.loop hloops

theorem bracedOf_other {c : Char} (hother : c ≠ '}') (rest : List Char) :
    bracedOf (c :: rest) = (bracedOf rest).map fun found => (c :: found.1, found.2) := by
  have htest : (decide (c ≠ '}')) = true := decide_eq_true hother
  unfold bracedOf
  rw [List.dropWhile_cons, List.takeWhile_cons, htest, if_pos rfl, if_pos rfl]
  cases rest.dropWhile (· ≠ '}') <;> rfl

theorem bracedRound_loops (v rest : List Char) :
    Computes.Loops bracedRound v rest (prepend v (bracedOf rest)) := by
  induction rest generalizing v with
  | nil => exact .stop ((atEnd_computes []).bind (.reject _ []))
  | cons c rest ih =>
    have hend := atEnd_computes (c :: rest)
    have hsymbol := @Computes.symbol _ String (c :: rest) 0 c rfl
    by_cases hclose : c = '}'
    · subst hclose
      have hclosed : prepend v (bracedOf ('}' :: rest)) = .ok (v, rest) := by
        change prepend v (.ok ([], rest)) = _
        rw [prepend, Except.map, List.append_nil]
      rw [hclosed]
      refine .leave (hend.bind (hsymbol.bind ?_))
      rw [if_pos rfl]
      exact (Computes.forward ['}'] rest).bind (.ret _ rest)
    · rw [bracedOf_other hclose, prepend_push]
      refine .again (hend.bind (hsymbol.bind ?_)) (Nat.lt_succ_self _) (ih (v ++ [c]))
      rw [if_neg hclose]
      exact (Computes.forward [c] rest).bind (.ret _ rest)

theorem scanBraced_computes (rest : List Char) : Computes scanBraced rest (bracedOf rest) := by
  have hloops := bracedRound_loops [] rest
  rw [prepend_nil] at hloops
  exact Computes.loop hloops

theorem skipTrailing_computes (error : String) (rest : List Char) :
    Computes (skipTrailing error) rest ((trailingOf error rest).map fun tail => ((), tail)) := by
  apply Computes.loop
  induction rest with
  | nil => exact .leave ((Computes.holds _ 0 []).bind (.ret _ []))
  | cons c rest ih =>
    have hholds := @Computes.holds _ String (· ≠ ';') 0 (c :: rest)
    have hwhite := @Computes.holds _ String isAsciiWhitespace 0 (c :: rest)
    by_cases hseparator : c = ';'
    · subst hseparator
      exact .leave (hholds.bind (.ret _ _))
    · rw [List.getElem?_cons_zero, Option.any_some, decide_eq_true hseparator] at hholds
      rw [List.getElem?_cons_zero, Option.any_some] at hwhite
      cases hspace : isAsciiWhitespace c with
      | true =>
        rw [hspace] at hwhite
        have htrailing : trailingOf error (c :: rest) = trailingOf error rest := by
          unfold trailingOf
          rw [List.dropWhile_cons_of_pos hspace]
        rw [htrailing]
        refine .again (hholds.bind (hwhite.bind ?_)) (Nat.lt_succ_self _) ih
        exact (Computes.forward [c] rest).bind (.ret _ rest)
      | false =>
        rw [hspace] at hwhite
        have htrailing : trailingOf error (c :: rest) = .error error := by
          unfold trailingOf
          rw [List.dropWhile_cons_of_neg (Bool.eq_false_iff.mp hspace)]
          exact if_neg hseparator
        rw [htrailing]
        exact .stop (hholds.bind (hwhite.bind (.reject error _)))

/-- A closed value and what may stand behind it. -/
theorem closed_computes {scan : Parser (List Char)} {rest : List Char}
    {result : Except String (List Char × List Char)} (error : String)
    (hscan : Computes scan rest result) :
    Computes (do
      let v ← scan
      skipTrailing error
      pure v) rest (do
      let (v, rest) ← result
      let rest ← trailingOf error rest
      .ok (v, rest)) := by
  cases result with
  | error error => exact hscan.bind_error
  | ok found =>
    have htrailing := skipTrailing_computes error found.2
    refine hscan.bind ?_
    change Computes _ _ (trailingOf error found.2 >>= fun rest => .ok (found.1, rest))
    cases htail : trailingOf error found.2 with
    | error other =>
      rw [htail] at htrailing
      exact htrailing.bind_error
    | ok tail =>
      rw [htail] at htrailing
      exact htrailing.bind (.ret _ tail)

theorem unquoted_computes (rest : List Char) :
    Computes (do
      let v ← sliceOver (skipWhile (· ≠ ';'))
      pure (trimEnd v)) rest (.ok (unquotedOf rest) : Except String (List Char × List Char)) :=
  (Computes.sliceOver_skipWhile _ rest).bind (.ret _ _)

theorem scanValue_computes (rest : List Char) : Computes scanValue rest (valueOf rest) := by
  refine (Computes.skipWhile isAsciiWhitespace rest).bind ?_
  unfold valueOf
  generalize rest.dropWhile isAsciiWhitespace = rest
  have hquote := @Computes.holds _ String isQuote 0 rest
  have hbrace := @Computes.holds _ String (fun c => decide (c = '{')) 0 rest
  cases rest with
  | nil => exact hquote.bind (hbrace.bind (unquoted_computes []))
  | cons c tail =>
    rw [List.getElem?_cons_zero, Option.any_some] at hquote hbrace
    rw [formOf]
    cases hisQuote : isQuote c with
    | true =>
      rw [hisQuote] at hquote
      rw [if_pos rfl]
      refine hquote.bind ((Computes.symbol rfl).bind ((Computes.forward [c] tail).bind ?_))
      exact closed_computes _ (scanQuoted_computes c tail)
    | false =>
      rw [hisQuote] at hquote
      by_cases hopen : c = '{'
      · rw [decide_eq_true hopen] at hbrace
        rw [if_neg Bool.false_ne_true, if_pos hopen]
        refine hquote.bind (hbrace.bind ((Computes.forward [c] tail).bind ?_))
        exact closed_computes _ (scanBraced_computes tail)
      · rw [decide_eq_false hopen] at hbrace
        rw [if_neg Bool.false_ne_true, if_neg hopen]
        exact hquote.bind (hbrace.bind (unquoted_computes (c :: tail)))

/-- The separator behind a pair goes with it. -/
theorem separated_computes {α : Type} (value : α) (rest : List Char) :
    Computes (do
      if ← holds (· = ';') 0 then
        forward 1
        pure value
      else pure value : Parser α) rest (.ok (value, dropSeparator rest)) := by
  have hholds := @Computes.holds _ String (fun c => decide (c = ';')) 0 rest
  cases rest with
  | nil => exact hholds.bind (.ret value [])
  | cons c tail =>
    rw [List.getElem?_cons_zero, Option.any_some] at hholds
    by_cases hseparator : c = ';'
    · rw [decide_eq_true hseparator] at hholds
      rw [dropSeparator, if_pos hseparator]
      exact hholds.bind ((Computes.forward [c] tail).bind (.ret value tail))
    · rw [decide_eq_false hseparator] at hholds
      rw [dropSeparator, if_neg hseparator]
      exact hholds.bind (.ret value (c :: tail))

theorem scanPair_computes (rest : List Char) :
    Computes scanPair rest ((pairOf rest).map fun found => (found.1, dropSeparator found.2)) := by
  have hkey := scanKey_computes rest
  unfold pairOf
  cases hkeyOf : keyOf rest with
  | error error =>
    rw [hkeyOf] at hkey
    exact hkey.bind_error
  | ok found =>
    obtain ⟨key, tail⟩ := found
    rw [hkeyOf] at hkey
    refine hkey.bind ?_
    change Computes (if (normalKey key).isEmpty = true then _ else _) tail
      (Except.map _ (if (normalKey key).isEmpty = true then _ else _))
    split_ifs with hempty
    · exact .reject _ tail
    · have hvalue := scanValue_computes tail
      cases hvalueOf : valueOf tail with
      | error error =>
        rw [hvalueOf] at hvalue
        exact hvalue.bind_error
      | ok found =>
        rw [hvalueOf] at hvalue
        exact hvalue.bind (separated_computes _ found.2)

end Loops

section Pairs

variable {close : Char} {bad : Char → Bool} {error : String} {rest : List Char}

/-- How a text is read up to a single closing character. -/
inductive UpToSingle (close : Char) (bad : Char → Bool) :
    List Char → List Char × List Char → Prop where
  | closed {rest : List Char} (hrest : rest.head? ≠ some close) :
      UpToSingle close bad (close :: rest) ([], rest)
  | double {rest : List Char} {found : List Char × List Char}
      (hmore : UpToSingle close bad rest found) :
      UpToSingle close bad (close :: close :: rest) (close :: found.1, found.2)
  | other {c : Char} {rest : List Char} {found : List Char × List Char} (hbad : bad c = false)
      (hother : c ≠ close) (hmore : UpToSingle close bad rest found) :
      UpToSingle close bad (c :: rest) (c :: found.1, found.2)

theorem untilSingle_eq_ok (hclose : bad close = false) {found : List Char × List Char} :
    untilSingle close bad error rest = .ok found ↔ UpToSingle close bad rest found := by
  constructor
  · intro huntil
    induction rest using untilSingle.induct close bad generalizing found with
    | case1 => cases huntil
    | case2 c rest hbad =>
      rw [untilSingle_bad hbad] at huntil
      cases huntil
    | case3 =>
      cases huntil.symm.trans (untilSingle_close hclose (by simp))
      exact .closed (by simp)
    | case4 tail _ ih =>
      rw [untilSingle_double hclose] at huntil
      obtain ⟨inner, hinner, rfl⟩ := exists_of_map huntil
      exact .double (ih hinner)
    | case5 d tail hdouble =>
      have hnext : (d :: tail).head? ≠ some close := by simpa using hdouble
      cases huntil.symm.trans (untilSingle_close hclose hnext)
      exact .closed hnext
    | case6 c rest hbad hother ih =>
      rw [untilSingle_other (Bool.eq_false_iff.mpr hbad) hother] at huntil
      obtain ⟨inner, hinner, rfl⟩ := exists_of_map huntil
      exact .other (Bool.eq_false_iff.mpr hbad) hother (ih hinner)
  · intro hread
    induction hread with
    | closed hrest => exact untilSingle_close hclose hrest
    | double _ ih =>
      rw [untilSingle_double hclose, ih]
      rfl
    | other hbad hother _ ih =>
      rw [untilSingle_other hbad hother, ih]
      rfl

theorem UpToSingle.length {found : List Char × List Char}
    (hread : UpToSingle close bad rest found) : found.2.length < rest.length := by
  induction hread with
  | closed => exact Nat.lt_succ_self _
  | double _ ih => exact Nat.lt_succ_of_lt (Nat.lt_succ_of_lt ih)
  | other _ _ _ ih => exact Nat.lt_succ_of_lt ih

/-- The parts of a pair. -/
theorem pairOf_eq_ok {found : (String × String) × List Char} :
    pairOf rest = .ok found ↔ ∃ key middle value tail, keyOf rest = .ok (key, middle) ∧
      (normalKey key).isEmpty = false ∧ valueOf middle = .ok (value, tail) ∧
        found = ((String.ofList (normalKey key), String.ofList value), tail) := by
  unfold pairOf
  cases hkey : keyOf rest with
  | error error => exact iff_of_false (fun h => by cases h) fun ⟨_, _, _, _, h, _⟩ => by cases h
  | ok parts =>
    obtain ⟨key, middle⟩ := parts
    change (if (normalKey key).isEmpty = true then _ else _) = _ ↔ _
    split_ifs with hempty
    · refine iff_of_false (fun h => by cases h) ?_
      rintro ⟨_, _, _, _, ⟨⟩, hother, -⟩
      rw [hempty] at hother
      cases hother
    · cases hvalue : valueOf middle with
      | error error =>
        refine iff_of_false (fun h => by cases h) ?_
        rintro ⟨_, _, _, _, ⟨⟩, -, hother, -⟩
        rw [hvalue] at hother
        cases hother
      | ok parts =>
        obtain ⟨value, tail⟩ := parts
        constructor
        · rintro ⟨⟩
          exact ⟨_, _, _, _, rfl, Bool.eq_false_iff.mpr hempty, hvalue, rfl⟩
        · rintro ⟨_, _, _, _, ⟨⟩, -, hother, rfl⟩
          rw [hvalue] at hother
          cases hother
          rfl

theorem pairOf_length {found : (String × String) × List Char} (hpair : pairOf rest = .ok found) :
    found.2.length < rest.length := by
  obtain ⟨key, middle, value, tail, hkey, -, hvalue, rfl⟩ := pairOf_eq_ok.mp hpair
  have hless : middle.length < rest.length := ((untilSingle_eq_ok rfl).mp hkey).length
  have hcomputes := scanValue_computes middle
  rw [hvalue] at hcomputes
  exact Nat.lt_of_le_of_lt hcomputes.suffix.length_le hless

theorem dropSeparator_length (rest : List Char) : (dropSeparator rest).length ≤ rest.length := by
  cases rest with
  | nil => exact Nat.le_refl _
  | cons c tail =>
    rw [dropSeparator]
    split_ifs
    · exact Nat.le_succ _
    · exact Nat.le_refl _

/-- The pairs of a text, in order. -/
def pairsOf (rest : List Char) : Except String (List (String × String)) :=
  if (rest.dropWhile isSeparator).isEmpty then .ok []
  else
    match _hpair : pairOf (rest.dropWhile isSeparator) with
    | .error error => .error error
    | .ok found => (pairsOf (dropSeparator found.2)).map (found.1 :: ·)
termination_by rest.length
decreasing_by
  have hless := pairOf_length _hpair
  have hdrop : (rest.dropWhile isSeparator).length ≤ rest.length :=
    (List.dropWhile_suffix isSeparator).length_le
  have hseparator := dropSeparator_length found.2
  omega

theorem pairsOf_nil (hrest : rest.dropWhile isSeparator = []) : pairsOf rest = .ok [] := by
  unfold pairsOf
  rw [hrest]
  rfl

theorem pairsOf_error (hrest : rest.dropWhile isSeparator ≠ [])
    (hpair : pairOf (rest.dropWhile isSeparator) = .error error) :
    pairsOf rest = .error error := by
  unfold pairsOf
  rw [if_neg (List.isEmpty_eq_false_iff.mpr hrest ▸ Bool.false_ne_true)]
  split
  · next other hother =>
    rw [hother] at hpair
    cases hpair
    rfl
  · next found hfound =>
    rw [hfound] at hpair
    cases hpair

theorem pairsOf_pair {found : (String × String) × List Char}
    (hrest : rest.dropWhile isSeparator ≠ [])
    (hpair : pairOf (rest.dropWhile isSeparator) = .ok found) :
    pairsOf rest = (pairsOf (dropSeparator found.2)).map (found.1 :: ·) := by
  conv_lhs => unfold pairsOf
  rw [if_neg (List.isEmpty_eq_false_iff.mpr hrest ▸ Bool.false_ne_true)]
  split
  · next other hother =>
    rw [hother] at hpair
    cases hpair
  · next other hother =>
    rw [hother] at hpair
    cases hpair
    rfl

/-- The map after more pairs. -/
def settle (pairs : String → Option String) (more : List (String × String)) :
    String → Option String :=
  more.foldl (fun pairs pair => Function.update pairs pair.1 (some pair.2)) pairs

theorem pairsRound_loops (pairs : String → Option String) (rest : List Char) :
    Computes.Loops pairsRound pairs rest ((pairsOf rest).map fun more => (settle pairs more, [])) := by
  induction hlength : rest.length using Nat.strong_induction_on generalizing pairs rest with
  | _ length ih =>
    subst hlength
    cases rest with
    | nil =>
      rw [pairsOf_nil rfl]
      exact .leave ((Computes.inside 0 []).bind (.ret _ []))
    | cons c rest =>
      have hskip := @Computes.skipWhile _ String isSeparator (c :: rest)
      have hdrop : ((c :: rest).dropWhile isSeparator).length ≤ (c :: rest).length :=
        (List.dropWhile_suffix isSeparator).length_le
      cases hrest : (c :: rest).dropWhile isSeparator with
      | nil =>
        rw [pairsOf_nil hrest]
        rw [hrest] at hskip
        exact .leave ((Computes.inside_cons c rest).bind (hskip.bind
          ((Computes.inside 0 []).bind (.ret _ []))))
      | cons d tail =>
        have hne : (c :: rest).dropWhile isSeparator ≠ [] := by
          rw [hrest]
          exact List.cons_ne_nil d tail
        rw [hrest] at hskip hdrop
        have hscan := scanPair_computes (d :: tail)
        cases hpair : pairOf (d :: tail) with
        | error error =>
          rw [hpair] at hscan
          rw [pairsOf_error hne (by rw [hrest]; exact hpair)]
          refine .stop ((Computes.inside_cons c rest).bind (hskip.bind ?_))
          exact (Computes.inside_cons d tail).bind hscan.bind_error
        | ok found =>
          rw [hpair] at hscan
          have hless := pairOf_length hpair
          have hseparator := dropSeparator_length found.2
          have hshorter : (dropSeparator found.2).length < (c :: rest).length := by omega
          have hloops := ih _ hshorter (Function.update pairs found.1.1 (some found.1.2)) _ rfl
          rw [pairsOf_pair hne (by rw [hrest]; exact hpair)]
          have hsettle : (((pairsOf (dropSeparator found.2)).map (found.1 :: ·)).map fun more =>
              (settle pairs more, ([] : List Char))) =
              (pairsOf (dropSeparator found.2)).map fun more =>
                (settle (Function.update pairs found.1.1 (some found.1.2)) more, []) := by
            cases pairsOf (dropSeparator found.2) <;> rfl
          rw [hsettle]
          refine .again ((Computes.inside_cons c rest).bind (hskip.bind ?_)) hshorter hloops
          exact (Computes.inside_cons d tail).bind (hscan.bind (.ret _ _))

theorem scanPairs_computes (text : List Char) :
    Computes scanPairs text ((pairsOf text).map fun more => (settle (fun _ => none) more, [])) :=
  Computes.loop (pairsRound_loops _ text)

end Pairs

end Tiberius.AdoParser
