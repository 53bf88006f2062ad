import Tiberius.AdoText

/-!
Connection strings with more text behind a separator. A string that is accepted ends
where a pair ends, whatever form its last value has, so that its own pairs stay as
they are and the rest is read as if it stood alone.
-/

namespace Tiberius.AdoParser

open Reading Reading.Scanner

/-- The settings of the first string, with those of the second over them. -/
def AdoNetString.overriddenBy (first second : AdoNetString) : AdoNetString where
  pairs key := (second.pairs key).or (first.pairs key)

section Settle

/-- The last of the pairs with a key. -/
def lastOf (more : List (String × String)) (key : String) : Option String :=
  (more.reverse.find? fun pair => decide (pair.1 = key)).map Prod.snd

theorem lastOf_append (first second : List (String × String)) (key : String) :
    lastOf (first ++ second) key = (lastOf second key).or (lastOf first key) := by
  unfold lastOf
  rw [List.reverse_append, List.find?_append]
  cases second.reverse.find? _ <;> rfl

theorem settle_eq (pairs : String → Option String) (more : List (String × String)) (key : String) :
    settle pairs more key = (lastOf more key).or (pairs key) := by
  induction more generalizing pairs with
  | nil => rfl
  | cons pair more ih =>
    have hpair : lastOf [pair] key = if pair.1 = key then some pair.2 else none := by
      unfold lastOf
      by_cases hkey : pair.1 = key <;> simp [hkey]
    have hupdate : Function.update pairs pair.1 (some pair.2) key =
        (lastOf [pair] key).or (pairs key) := by
      rw [hpair]
      by_cases hkey : pair.1 = key
      · subst hkey
        simp
      · simp [hkey, Function.update_of_ne (Ne.symm hkey)]
    calc
      settle pairs (pair :: more) key =
          (lastOf more key).or (Function.update pairs pair.1 (some pair.2) key) := ih _
      _ = ((lastOf more key).or (lastOf [pair] key)).or (pairs key) := by
        rw [hupdate, Option.or_assoc]
      _ = (lastOf (pair :: more) key).or (pairs key) := by
        rw [← lastOf_append, List.singleton_append]

theorem settle_none (more : List (String × String)) : settle (fun _ => none) more = lastOf more := by
  funext key
  rw [settle_eq, Option.or_none]

end Settle

/-- What the parser makes of a text, by its pairs. -/
theorem parse_eq (input : String) : parse input =
    if isAscii input.toList then
      (Except.mapError Stop.error (pairsOf input.toList)).map fun more => { pairs := lastOf more }
    else .error (.error "the connection string contains non-ASCII characters") := by
  unfold parse parseScan
  split_ifs with hascii
  · have houtcome := (scanPairs_computes input.toList).outcome
    have hmap : ((scanPairs.run input.toList 0).outcome.map fun result =>
        ({ pairs := result.1 } : AdoNetString)) =
        ((scanPairs.run input.toList 0).outcome.map Prod.fst).map AdoNetString.mk := by
      cases (scanPairs.run input.toList 0).outcome <;> rfl
    rw [hmap, houtcome]
    cases pairsOf input.toList with
    | error error => rfl
    | ok more => exact congrArg (fun pairs => Except.ok (AdoNetString.mk pairs)) (settle_none more)
  · rfl

theorem parse_eq_ok {input : String} {result : AdoNetString} : parse input = .ok result ↔
    isAscii input.toList = true ∧
      ∃ more, pairsOf input.toList = .ok more ∧ result = { pairs := lastOf more } := by
  rw [parse_eq]
  split_ifs with hascii
  · cases pairsOf input.toList with
    | error error => exact iff_of_false (fun h => by cases h) fun ⟨_, _, h, _⟩ => by cases h
    | ok more =>
      constructor
      · intro hok
        cases hok
        exact ⟨hascii, more, rfl, rfl⟩
      · rintro ⟨-, _, ⟨⟩, rfl⟩
        rfl
  · exact iff_of_false (fun h => by cases h) fun h => hascii h.1

/-- From the first character to at most the end, the index of a run only climbs. -/
theorem parseScan_climbs (input : String) :
    Climbs 0 input.toList.length (parseScan input).visited := by
  unfold parseScan
  split_ifs
  · exact (scanPairs_computes input.toList).climbs
  · exact Nat.zero_le _

/-- A text is parsed or refused for a reason. -/
theorem parse_settles (input : String) :
    (∃ result, parse input = .ok result) ∨ ∃ reason, parse input = .error (.error reason) := by
  rw [parse_eq]
  split_ifs
  · cases pairsOf input.toList with
    | error error => exact .inr ⟨error, rfl⟩
    | ok more => exact .inl ⟨_, rfl⟩
  · exact .inr ⟨_, rfl⟩

section Append

variable {test : Char → Bool} {stop : Char} {rest more : List Char}

theorem dropWhile_append_stop (hstop : test stop = false) :
    (rest ++ stop :: more).dropWhile test = rest.dropWhile test ++ stop :: more := by
  rw [List.dropWhile_append, List.dropWhile_cons_of_neg (Bool.eq_false_iff.mp hstop)]
  split_ifs with hempty
  · rw [List.isEmpty_iff.mp hempty, List.nil_append]
  · rfl

theorem takeWhile_append_stop (hstop : test stop = false) :
    (rest ++ stop :: more).takeWhile test = rest.takeWhile test := by
  rw [List.takeWhile_append, List.takeWhile_cons_of_neg (Bool.eq_false_iff.mp hstop)]
  split_ifs with hall
  · rw [List.append_nil, (List.takeWhile_prefix test).eq_of_length hall]
  · rfl

/-- What a function on the rest of a text has found, when more follows. -/
def behind {α : Type} (more : List Char) (found : α × List Char) : α × List Char :=
  (found.1, found.2 ++ more)

theorem UpToSingle.append {close : Char} {bad : Char → Bool} {found : List Char × List Char}
    (hclose : close ≠ stop) (hread : UpToSingle close bad rest found) :
    UpToSingle close bad (rest ++ stop :: more) (behind (stop :: more) found) := by
  induction hread with
  | @closed rest hrest =>
    refine .closed ?_
    cases rest with
    | nil => exact fun heq => hclose (Option.some.inj heq).symm
    | cons c tail => exact hrest
  | double _ ih => exact .double ih
  | other hbad hother _ ih => exact .other hbad hother ih

theorem untilSingle_append {close : Char} {bad : Char → Bool} {error : String}
    {found : List Char × List Char} (hbad : bad close = false) (hclose : close ≠ stop)
    (huntil : untilSingle close bad error rest = .ok found) :
    untilSingle close bad error (rest ++ stop :: more) = .ok (behind (stop :: more) found) :=
  (untilSingle_eq_ok hbad).mpr (((untilSingle_eq_ok hbad).mp huntil).append hclose)

theorem bracedOf_append {found : List Char × List Char} (hbraced : bracedOf rest = .ok found) :
    bracedOf (rest ++ more) = .ok (behind more found) := by
  induction rest generalizing found with
  | nil => cases hbraced
  | cons c rest ih =>
    by_cases hclose : c = '}'
    · subst hclose
      cases hbraced
      rfl
    · rw [bracedOf_other hclose] at hbraced
      obtain ⟨inner, hinner, rfl⟩ := exists_of_map hbraced
      rw [List.cons_append, bracedOf_other hclose, ih hinner]
      rfl

theorem trailingOf_append {error : String} {tail : List Char}
    (htrailing : trailingOf error rest = .ok tail) :
    trailingOf error (rest ++ ';' :: more) = .ok (tail ++ ';' :: more) := by
  unfold trailingOf at htrailing ⊢
  rw [dropWhile_append_stop rfl]
  cases hrest : rest.dropWhile isAsciiWhitespace with
  | nil =>
    rw [hrest] at htrailing
    cases htrailing
    rfl
  | cons c rest =>
    rw [hrest] at htrailing
    simp only [List.cons_append] at htrailing ⊢
    split_ifs at htrailing ⊢
    cases htrailing
    rfl

theorem unquotedOf_append : unquotedOf (rest ++ ';' :: more) =
    behind (';' :: more) (unquotedOf rest) := by
  have hstop : decide (';' ≠ ';') = false := rfl
  unfold unquotedOf
  rw [dropWhile_append_stop hstop, takeWhile_append_stop hstop]
  rfl

/-- A closed value, when more follows on a separator. -/
theorem closed_append {scan : List Char → Except String (List Char × List Char)} (error : String)
    (hscan : ∀ {found}, scan rest = .ok found →
      scan (rest ++ ';' :: more) = .ok (behind (';' :: more) found))
    {found : List Char × List Char}
    (hfound : (do
      let (v, rest) ← scan rest
      let rest ← trailingOf error rest
      .ok (v, rest)) = Except.ok found) :
    (do
      let (v, rest) ← scan (rest ++ ';' :: more)
      let rest ← trailingOf error rest
      .ok (v, rest)) = Except.ok (behind (';' :: more) found) := by
  cases hvalue : scan rest with
  | error other =>
    rw [hvalue] at hfound
    cases hfound
  | ok inner =>
    rw [hvalue] at hfound
    rw [hscan hvalue]
    change trailingOf error inner.2 >>= (fun rest => .ok (inner.1, rest)) = _ at hfound
    change trailingOf error (inner.2 ++ ';' :: more) >>= (fun rest => .ok (inner.1, rest)) = _
    cases htail : trailingOf error inner.2 with
    | error other =>
      rw [htail] at hfound
      cases hfound
    | ok tail =>
      rw [htail] at hfound
      cases hfound
      rw [trailingOf_append htail]
      rfl

theorem valueOf_append {found : List Char × List Char} (hvalue : valueOf rest = .ok found) :
    valueOf (rest ++ ';' :: more) = .ok (behind (';' :: more) found) := by
  unfold valueOf at hvalue ⊢
  rw [dropWhile_append_stop rfl]
  generalize rest.dropWhile isAsciiWhitespace = rest at hvalue ⊢
  cases rest with
  | nil =>
    cases hvalue
    exact congrArg Except.ok (@unquotedOf_append [] more)
  | cons c tail =>
    rw [List.cons_append]
    rw [formOf] at hvalue ⊢
    split_ifs at hvalue ⊢ with hquote hopen
    · apply closed_append _ (fun huntil => untilSingle_append rfl ?_ huntil) hvalue
      intro heq
      rw [heq] at hquote
      cases hquote
    · exact closed_append _ bracedOf_append hvalue
    · cases hvalue
      exact congrArg Except.ok (@unquotedOf_append (c :: tail) more)

theorem pairOf_append {found : (String × String) × List Char} (hpair : pairOf rest = .ok found) :
    pairOf (rest ++ ';' :: more) = .ok (behind (';' :: more) found) := by
  obtain ⟨key, middle, value, tail, hkey, hempty, hvalue, rfl⟩ := pairOf_eq_ok.mp hpair
  have hstop : '=' ≠ ';' := by decide
  exact pairOf_eq_ok.mpr ⟨key, _, value, _, untilSingle_append rfl hstop hkey, hempty,
    valueOf_append hvalue, rfl⟩

end Append

section Join

variable {first second : List Char} {pairs : List (String × String)}

/-- The separators in front of the pairs do not matter. -/
theorem pairsOf_congr (hsame : first.dropWhile isSeparator = second.dropWhile isSeparator) :
    pairsOf first = pairsOf second := by
  cases hfirst : first.dropWhile isSeparator with
  | nil => rw [pairsOf_nil hfirst, pairsOf_nil (hsame ▸ hfirst)]
  | cons c tail =>
    have hne : first.dropWhile isSeparator ≠ [] := by simp [hfirst]
    cases hpair : pairOf (first.dropWhile isSeparator) with
    | error error =>
      exact (pairsOf_error hne hpair).trans
        (pairsOf_error (hsame ▸ hne) (hsame ▸ hpair)).symm
    | ok found =>
      exact (pairsOf_pair hne hpair).trans (pairsOf_pair (hsame ▸ hne) (hsame ▸ hpair)).symm

theorem dropSeparator_append {rest : List Char} (hrest : rest ≠ []) (more : List Char) :
    dropSeparator (rest ++ more) = dropSeparator rest ++ more := by
  cases rest with
  | nil => exact absurd rfl hrest
  | cons c tail =>
    rw [List.cons_append, dropSeparator, dropSeparator]
    split_ifs <;> rfl

/-- A text that is read has its pairs in front of those of any text that a separator
joins to it. -/
theorem pairsOf_append (hfirst : pairsOf first = .ok pairs) (second : List Char) :
    pairsOf (first ++ ';' :: second) = (pairsOf second).map (pairs ++ ·) := by
  induction hlength : first.length using Nat.strong_induction_on generalizing first pairs with
  | _ length ih =>
    subst hlength
    have hdrop := (List.dropWhile_suffix (l := first) isSeparator).length_le
    cases hrest : first.dropWhile isSeparator with
    | nil =>
      rw [pairsOf_nil hrest] at hfirst
      cases hfirst
      have hsame : (first ++ ';' :: second).dropWhile isSeparator =
          second.dropWhile isSeparator := by
        rw [List.dropWhile_append, hrest, List.dropWhile_cons_of_pos rfl]
        rfl
      rw [pairsOf_congr hsame]
      cases pairsOf second <;> rfl
    | cons c tail =>
      have hne : first.dropWhile isSeparator ≠ [] := by simp [hrest]
      have happend : (first ++ ';' :: second).dropWhile isSeparator =
          first.dropWhile isSeparator ++ ';' :: second := by
        rw [List.dropWhile_append, hrest]
        rfl
      cases hpair : pairOf (first.dropWhile isSeparator) with
      | error error =>
        rw [pairsOf_error hne hpair] at hfirst
        cases hfirst
      | ok found =>
        rw [pairsOf_pair hne hpair] at hfirst
        obtain ⟨more, hmore, rfl⟩ := exists_of_map hfirst
        have hless := pairOf_length hpair
        have hjoined : pairsOf (first ++ ';' :: second) =
            (pairsOf (dropSeparator (found.2 ++ ';' :: second))).map (found.1 :: ·) := by
          apply @pairsOf_pair _ (behind (';' :: second) found)
          · rw [happend]
            exact List.append_ne_nil_of_left_ne_nil hne _
          · rw [happend, pairOf_append hpair]
        rw [hjoined]
        by_cases hend : found.2 = []
        · rw [hend] at hmore ⊢
          rw [pairsOf_nil rfl] at hmore
          cases hmore
          rfl
        · have hseparator := dropSeparator_length found.2
          rw [dropSeparator_append hend, ih _ (by omega) hmore rfl]
          cases pairsOf second <;> rfl

theorem isAscii_append (first second : List Char) :
    isAscii (first ++ second) = (isAscii first && isAscii second) := List.all_append

/-- Whatever a separator joins to a text that is parsed is parsed as if it stood alone,
and its settings go over those of the text. -/
theorem parse_join {a : String} {m : AdoNetString} (ha : parse a = .ok m) (b : String) :
    parse (a ++ ";" ++ b) = (parse b).map m.overriddenBy := by
  obtain ⟨hascii, pairs, hpairs, rfl⟩ := parse_eq_ok.mp ha
  have htext : (a ++ ";" ++ b).toList = a.toList ++ ';' :: b.toList := by simp
  have hboth : isAscii (a.toList ++ ';' :: b.toList) = isAscii b.toList := by
    have hseparator : isAscii (';' :: b.toList) = isAscii b.toList := rfl
    rw [isAscii_append, hascii, hseparator, Bool.true_and]
  rw [parse_eq, parse_eq, htext, hboth, pairsOf_append hpairs]
  split_ifs
  · cases pairsOf b.toList with
    | error error => rfl
    | ok more =>
      have hpairs : lastOf (pairs ++ more) = fun key => (lastOf more key).or (lastOf pairs key) :=
        funext (lastOf_append pairs more)
      exact congrArg (fun pairs => Except.ok (AdoNetString.mk pairs)) hpairs
  · rfl

end Join

/-- Two strings that are parsed are parsed as one with a separator between them, the
settings of the second over those of the first, and in every string the index climbs
from the first character to at most the end, where the parser gives its result or a
reason. -/
theorem join_overrides_and_index_climbs :
    (∀ (a b : String) (m1 m2 : AdoNetString), parse a = .ok m1 → parse b = .ok m2 →
      parse (a ++ ";" ++ b) = .ok (m1.overriddenBy m2)) ∧
    ∀ input : String, Climbs 0 input.toList.length (parseScan input).visited ∧
      ((∃ result, parse input = .ok result) ∨
        ∃ reason, parse input = .error (.error reason)) := by
  refine ⟨fun a b m1 m2 ha hb => ?_, fun input => ⟨parseScan_climbs input, parse_settles input⟩⟩
  rw [parse_join ha, hb]
  rfl

theorem join_overrides_and_index_climbs_quoted :
    (parse ("k=1; j = 'a;''b' " ++ ";" ++ "K={2}")).map (fun m => (m.pairs "k", m.pairs "j")) =
      .ok (some "2", some "a;'b") := by
  rw [join_overrides_and_index_climbs.1 _ _ _ _ rfl rfl]
  rfl

end Tiberius.AdoParser
