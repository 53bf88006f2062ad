import Tiberius.AdoJoin

/-!
Settings written as a connection string. A key is written with its equals signs
doubled and a value in one of four forms, and whitespace may stand around each. Read
back, every setting is a pair, so the last one with a key is found under that key.
-/

namespace Tiberius.AdoParser

/-- A text with no whitespace at either end. -/
def Trimmed (text : List Char) : Prop :=
  (∀ c ∈ text.head?, isAsciiWhitespace c = false) ∧
    ∀ c ∈ text.getLast?, isAsciiWhitespace c = false

instance (text : List Char) : Decidable (Trimmed text) :=
  @instDecidableAnd _ _ (Option.decidableForallMem _) (Option.decidableForallMem _)

/-- Whitespace, if anything. -/
def Padding (text : List Char) : Prop := ∀ c ∈ text, isAsciiWhitespace c = true

instance (text : List Char) : Decidable (Padding text) := List.decidableBAll _ text

/-- A text with each closing character doubled. -/
def escape (close : Char) (text : List Char) : List Char :=
  text.flatMap fun c => if c = close then [c, c] else [c]

inductive Form where
  | single
  | double
  | braces
  | bare

namespace Form

def write : Form → List Char → List Char
  | .single, value => '\'' :: (escape '\'' value ++ ['\''])
  | .double, value => '"' :: (escape '"' value ++ ['"'])
  | .braces, value => '{' :: (value ++ ['}'])
  | .bare, value => value

/-- The values a form is for. -/
def Admits : Form → List Char → Prop
  | .single, _ => True
  | .double, _ => True
  | .braces, value => '}' ∉ value
  | .bare, value => ';' ∉ value ∧ Trimmed value ∧
      ∀ c ∈ value.head?, isQuote c = false ∧ c ≠ '{' ∧ c ≠ '='

instance (form : Form) (value : List Char) : Decidable (form.Admits value) :=
  match form with
  | .single => inferInstanceAs (Decidable True)
  | .double => inferInstanceAs (Decidable True)
  | .braces => inferInstanceAs (Decidable ('}' ∉ value))
  | .bare => @instDecidableAnd _ _ inferInstance
      (@instDecidableAnd _ _ inferInstance (Option.decidableForallMem _))

end Form

/-- A key and a value, and how they are written. -/
structure Setting where
  key : String
  value : String
  form : Form
  beforeKey : List Char
  afterKey : List Char
  beforeValue : List Char
  afterValue : List Char

namespace Setting

structure Legal (setting : Setting) : Prop where
  key_ascii : isAscii setting.key.toList = true
  key_nonempty : setting.key.toList ≠ []
  key_lower : setting.key.toList.any Char.isUpper = false
  key_trimmed : Trimmed setting.key.toList
  key_separator : ';' ∉ setting.key.toList
  value_ascii : isAscii setting.value.toList = true
  value_form : setting.form.Admits setting.value.toList
  beforeKey_padding : Padding setting.beforeKey
  afterKey_padding : Padding setting.afterKey
  beforeValue_padding : Padding setting.beforeValue
  afterValue_padding : Padding setting.afterValue

/-- What stands behind the equals sign of a setting. -/
def valueText (setting : Setting) : List Char :=
  setting.beforeValue ++ (setting.form.write setting.value.toList ++ setting.afterValue)

def text (setting : Setting) : List Char :=
  setting.beforeKey ++
    (escape '=' setting.key.toList ++ (setting.afterKey ++ '=' :: setting.valueText))

end Setting

def render (settings : List Setting) : String :=
  String.ofList ([';'].intercalate (settings.map Setting.text))

/-- The settings as pairs. -/
def entries (settings : List Setting) : List (String × String) :=
  settings.map fun setting => (setting.key, setting.value)

section Texts

variable {test : Char → Bool} {text padding rest : List Char}

theorem dropWhile_of_head (hhead : ∀ c ∈ text.head?, test c = false) :
    text.dropWhile test = text := by
  cases text with
  | nil => rfl
  | cons c tail => exact List.dropWhile_cons_of_neg (Bool.eq_false_iff.mp (hhead c rfl))

theorem trimEnd_append (hlast : ∀ c ∈ text.getLast?, isAsciiWhitespace c = false)
    (hpadding : Padding padding) : trimEnd (text ++ padding) = text := by
  have hhead : ∀ c ∈ text.reverse.head?, isAsciiWhitespace c = false := by
    rw [List.head?_reverse]
    exact hlast
  have hreverse : Padding padding.reverse := fun c hc => hpadding c (List.mem_reverse.mp hc)
  unfold trimEnd List.rdropWhile
  rw [List.reverse_append, List.dropWhile_append_of_pos hreverse, dropWhile_of_head hhead,
    List.reverse_reverse]

theorem not_upper_toLower {c : Char} (hupper : c.isUpper = false) : c.toLower = c := by
  unfold Char.toLower
  unfold Char.isUpper at hupper
  exact dif_neg (of_decide_eq_false hupper)

theorem normalKey_append (htrimmed : Trimmed text) (hne : text ≠ [])
    (hlower : text.any Char.isUpper = false)
    (hpadding : Padding padding) :
    normalKey (text ++ padding) = text := by
  have hhead : ∀ c ∈ (text ++ padding).head?, isAsciiWhitespace c = false := by
    rw [List.head?_append_of_ne_nil _ hne]
    exact htrimmed.1
  have htrim : trim (text ++ padding) = text := by
    unfold trim
    rw [dropWhile_of_head hhead]
    exact trimEnd_append htrimmed.2 hpadding
  have hmap : text.map Char.toLower = text.map id :=
    List.map_congr_left fun c hc =>
      not_upper_toLower (Bool.eq_false_iff.mpr (List.any_eq_false.mp hlower c hc))
  rw [normalKey, htrim, hmap, List.map_id]

/-- A closing character that is written twice is read as one. -/
theorem untilSingle_escape {close : Char} {bad : Char → Bool} {error : String}
    (hclose : bad close = false) (hbad : ∀ c ∈ text, bad c = false)
    (hrest : rest.head? ≠ some close) :
    untilSingle close bad error (escape close text ++ close :: rest) = .ok (text, rest) := by
  induction text with
  | nil => exact untilSingle_close hclose hrest
  | cons c text ih =>
    have hmore := ih fun d hd => hbad d (List.mem_cons_of_mem c hd)
    by_cases hsame : c = close
    · subst hsame
      have hescape : escape c (c :: text) = c :: c :: escape c text := by simp [escape]
      rw [hescape, List.cons_append, List.cons_append, untilSingle_double hclose, hmore]
      rfl
    · have hescape : escape close (c :: text) = c :: escape close text := by
        simp [escape, hsame]
      rw [hescape, List.cons_append, untilSingle_other (hbad c List.mem_cons_self) hsame, hmore]
      rfl

theorem escape_padding {close : Char} (hclose : isAsciiWhitespace close = false)
    (hpadding : Padding padding) :
    escape close (text ++ padding) = escape close text ++ padding := by
  have hsame : escape close padding = padding := by
    induction padding with
    | nil => rfl
    | cons c padding ih =>
      have hne : c ≠ close := fun heq => by
        have hc := hpadding c List.mem_cons_self
        rw [heq, hclose] at hc
        cases hc
      have hmore := ih fun d hd => hpadding d (List.mem_cons_of_mem c hd)
      unfold escape at hmore ⊢
      rw [List.flatMap_cons, if_neg hne, hmore, List.singleton_append]
  rw [escape, List.flatMap_append]
  exact congrArg (escape close text ++ ·) hsame

theorem bracedOf_value (hvalue : '}' ∉ text) : bracedOf (text ++ '}' :: rest) = .ok (text, rest) := by
  induction text with
  | nil => rfl
  | cons c text ih =>
    have hne : c ≠ '}' := fun heq => hvalue (heq ▸ List.mem_cons_self)
    rw [List.cons_append, bracedOf_other hne, ih fun hmem => hvalue (List.mem_cons_of_mem c hmem)]
    rfl

theorem trailingOf_padding (error : String)
    (hpadding : Padding padding) : trailingOf error padding = .ok [] := by
  unfold trailingOf
  rw [List.dropWhile_eq_nil_iff.mpr hpadding]

theorem head?_padding {c : Char} (hpadding : Padding padding)
    (hc : isAsciiWhitespace c = false) (hrest : rest.head? ≠ some c) :
    (padding ++ rest).head? ≠ some c := by
  cases padding with
  | nil => exact hrest
  | cons d padding =>
    intro heq
    have hd := hpadding d List.mem_cons_self
    rw [Option.some.inj heq, hc] at hd
    cases hd

end Texts

namespace Form

variable {value padding : List Char}

theorem formOf_quoted {quote : Char} (hquote : isQuote quote = true)
    (hpadding : Padding padding) :
    formOf (quote :: (escape quote value ++ quote :: padding)) = .ok (value, []) := by
  have hspace : isAsciiWhitespace quote = false := by
    obtain rfl | rfl : quote = '\'' ∨ quote = '"' := by simpa [isQuote] using hquote
    all_goals rfl
  have hend : padding.head? ≠ some quote := by
    have hhead := @head?_padding padding [] quote hpadding hspace (by simp)
    rwa [List.append_nil] at hhead
  have hvalue : quotedOf quote (escape quote value ++ quote :: padding) = .ok (value, padding) :=
    untilSingle_escape rfl (fun _ _ => rfl) hend
  rw [formOf, if_pos hquote, hvalue]
  change trailingOf _ padding >>= (fun rest => Except.ok (value, rest)) = _
  rw [trailingOf_padding _ hpadding]
  rfl

theorem formOf_braced (hvalue : '}' ∉ value)
    (hpadding : Padding padding) :
    formOf ('{' :: (value ++ '}' :: padding)) = .ok (value, []) := by
  rw [formOf, if_neg (by decide), if_pos rfl, bracedOf_value hvalue]
  change trailingOf _ padding >>= (fun rest => Except.ok (value, rest)) = _
  rw [trailingOf_padding _ hpadding]
  rfl

theorem unquotedOf_value (hvalue : ';' ∉ value) (htrimmed : Trimmed value)
    (hpadding : Padding padding) :
    unquotedOf (value ++ padding) = (value, []) := by
  have hstops : ∀ c ∈ value ++ padding, decide (c ≠ ';') = true := by
    intro c hc
    apply decide_eq_true
    rintro rfl
    rcases List.mem_append.mp hc with hc | hc
    · exact hvalue hc
    · cases hpadding _ hc
  unfold unquotedOf
  rw [List.takeWhile_eq_self_iff.mpr hstops, List.dropWhile_eq_nil_iff.mpr hstops,
    trimEnd_append htrimmed.2 hpadding]

/-- A value in a form that is for it is read back, whatever whitespace is around it. -/
theorem valueOf_write {form : Form} {before : List Char} (hvalue : form.Admits value)
    (hbefore : Padding before)
    (hpadding : Padding padding) :
    valueOf (before ++ (form.write value ++ padding)) = .ok (value, []) := by
  unfold valueOf
  rw [List.dropWhile_append_of_pos hbefore]
  have hopened : ∀ {opening closing : Char} (inner : List Char), isAsciiWhitespace opening = false →
      (opening :: (inner ++ [closing]) ++ padding).dropWhile isAsciiWhitespace =
        opening :: (inner ++ closing :: padding) := by
    intro open' close inner hspace
    rw [List.cons_append, List.append_assoc, List.singleton_append]
    exact List.dropWhile_cons_of_neg (Bool.eq_false_iff.mp hspace)
  cases form with
  | single =>
    rw [write, hopened _ rfl]
    exact formOf_quoted rfl hpadding
  | double =>
    rw [write, hopened _ rfl]
    exact formOf_quoted rfl hpadding
  | braces =>
    rw [write, hopened _ rfl]
    exact formOf_braced hvalue hpadding
  | bare =>
    obtain ⟨hseparator, htrimmed, hhead⟩ := hvalue
    cases value with
    | nil =>
      rw [write, List.nil_append, List.dropWhile_eq_nil_iff.mpr hpadding]
      rfl
    | cons c tail =>
      obtain ⟨hquote, hbrace, -⟩ := hhead c rfl
      have hspace : isAsciiWhitespace c = false := htrimmed.1 c rfl
      rw [write, List.cons_append, List.dropWhile_cons_of_neg (Bool.eq_false_iff.mp hspace), formOf,
        hquote, if_neg Bool.false_ne_true, if_neg hbrace, ← List.cons_append,
        unquotedOf_value hseparator htrimmed hpadding]

/-- No value is written with an equals sign in front. -/
theorem head?_write {form : Form} (hvalue : form.Admits value)
    (hpadding : Padding padding) :
    (form.write value ++ padding).head? ≠ some '=' := by
  cases form with
  | single => simp [write]
  | double => simp [write]
  | braces => simp [write]
  | bare =>
    cases value with
    | nil =>
      have hhead := @head?_padding padding [] '=' hpadding rfl (by simp)
      rwa [List.append_nil] at hhead
    | cons c tail =>
      obtain ⟨-, -, hequals⟩ := hvalue.2.2 c rfl
      simp [write, hequals]

end Form

namespace Setting

variable {setting : Setting}

theorem pairOf_text (hlegal : setting.Legal) :
    pairOf (escape '=' setting.key.toList ++ (setting.afterKey ++ '=' :: setting.valueText)) =
      .ok ((setting.key, setting.value), []) := by
  have hkey : keyOf (escape '=' setting.key.toList ++
      (setting.afterKey ++ '=' :: setting.valueText)) =
        .ok (setting.key.toList ++ setting.afterKey, setting.valueText) := by
    rw [← List.append_assoc, ← escape_padding rfl hlegal.afterKey_padding]
    apply untilSingle_escape rfl
    · intro c hc
      apply decide_eq_false
      rintro rfl
      rcases List.mem_append.mp hc with hc | hc
      · exact hlegal.key_separator hc
      · cases hlegal.afterKey_padding _ hc
    · exact head?_padding hlegal.beforeValue_padding rfl
        (Form.head?_write hlegal.value_form hlegal.afterValue_padding)
  have hnormal : normalKey (setting.key.toList ++ setting.afterKey) = setting.key.toList :=
    normalKey_append hlegal.key_trimmed hlegal.key_nonempty hlegal.key_lower
      hlegal.afterKey_padding
  have hvalue : valueOf setting.valueText = .ok (setting.value.toList, []) :=
    Form.valueOf_write hlegal.value_form hlegal.beforeValue_padding hlegal.afterValue_padding
  refine pairOf_eq_ok.mpr ⟨_, _, _, _, hkey, ?_, hvalue, ?_⟩
  · rw [hnormal]
    exact List.isEmpty_eq_false_iff.mpr hlegal.key_nonempty
  · rw [hnormal, String.ofList_toList, String.ofList_toList]

/-- A setting is one pair. -/
theorem pairsOf_text (hlegal : setting.Legal) :
    pairsOf setting.text = .ok [(setting.key, setting.value)] := by
  obtain ⟨c, tail, hkey⟩ := List.exists_cons_of_ne_nil hlegal.key_nonempty
  have hbefore : ∀ c ∈ setting.beforeKey, isSeparator c = true := fun c hc => by
    simp [isSeparator, hlegal.beforeKey_padding c hc]
  have hhead : ∀ d ∈ (escape '=' setting.key.toList ++
      (setting.afterKey ++ '=' :: setting.valueText)).head?, isSeparator d = false := by
    have hspace : isAsciiWhitespace c = false := hlegal.key_trimmed.1 c (by simp [hkey])
    have hne : c ≠ ';' := fun heq => hlegal.key_separator (by simp [hkey, heq])
    intro d hd
    have hsame : d = c := by
      rw [hkey, escape, List.flatMap_cons] at hd
      split_ifs at hd <;> simpa using hd.symm
    rw [hsame]
    simp [isSeparator, hspace, hne]
  have hrest : setting.text.dropWhile isSeparator =
      escape '=' setting.key.toList ++ (setting.afterKey ++ '=' :: setting.valueText) := by
    rw [text, List.dropWhile_append_of_pos hbefore, dropWhile_of_head hhead]
  have hne : setting.text.dropWhile isSeparator ≠ [] := by simp [hrest]
  rw [pairsOf_pair hne (hrest ▸ pairOf_text hlegal), dropSeparator, pairsOf_nil rfl]
  rfl

end Setting

theorem pairsOf_render {settings : List Setting} (hlegal : ∀ setting ∈ settings, setting.Legal) :
    pairsOf ([';'].intercalate (settings.map Setting.text)) = .ok (entries settings) := by
  induction settings with
  | nil => exact pairsOf_nil rfl
  | cons setting settings ih =>
    have hfirst := Setting.pairsOf_text (hlegal setting List.mem_cons_self)
    have hmore := ih fun other hother => hlegal other (List.mem_cons_of_mem setting hother)
    cases settings with
    | nil =>
      rw [List.map_singleton, List.intercalate_singleton]
      exact hfirst
    | cons next settings =>
      rw [List.map_cons, List.map_cons, List.intercalate_cons_cons, List.append_assoc,
        List.singleton_append, pairsOf_append hfirst, ← List.map_cons, hmore]
      rfl

section Ascii

theorem isAscii_padding {padding : List Char} (hpadding : Padding padding) :
    isAscii padding = true := by
  refine List.all_eq_true.mpr fun c hc => ?_
  have hspace := hpadding c hc
  simp only [isAsciiWhitespace, Bool.or_eq_true, decide_eq_true_eq] at hspace
  obtain (((rfl | rfl) | rfl) | rfl) | rfl := hspace <;> rfl

theorem isAscii_cons (c : Char) (text : List Char) :
    isAscii (c :: text) = (decide (c.toNat < 128) && isAscii text) := rfl

theorem isAscii_escape {close : Char} {text : List Char} (htext : isAscii text = true) :
    isAscii (escape close text) = true := by
  refine List.all_eq_true.mpr fun c hc => List.all_eq_true.mp htext c ?_
  obtain ⟨d, hd, hc⟩ := List.mem_flatMap.mp hc
  have hsame : c = d := by
    split_ifs at hc <;> simpa using hc
  exact hsame ▸ hd

theorem Form.isAscii_write {form : Form} {value : List Char} (hvalue : isAscii value = true) :
    isAscii (form.write value) = true := by
  have hnil : isAscii [] = true := rfl
  cases form <;>
    simp [write, isAscii_cons, isAscii_append, isAscii_escape hvalue, hvalue, hnil]

theorem Setting.isAscii_text {setting : Setting} (hlegal : setting.Legal) :
    isAscii setting.text = true := by
  simp [text, valueText, isAscii_append, isAscii_cons, isAscii_escape hlegal.key_ascii,
    isAscii_padding hlegal.beforeKey_padding, isAscii_padding hlegal.afterKey_padding,
    isAscii_padding hlegal.beforeValue_padding, isAscii_padding hlegal.afterValue_padding,
    Form.isAscii_write hlegal.value_ascii]

theorem isAscii_render {settings : List Setting} (hlegal : ∀ setting ∈ settings, setting.Legal) :
    isAscii ([';'].intercalate (settings.map Setting.text)) = true := by
  induction settings with
  | nil => rfl
  | cons setting settings ih =>
    have hfirst := Setting.isAscii_text (hlegal setting List.mem_cons_self)
    have hmore := ih fun other hother => hlegal other (List.mem_cons_of_mem setting hother)
    cases settings with
    | nil =>
      rw [List.map_singleton, List.intercalate_singleton]
      exact hfirst
    | cons next settings =>
      rw [List.map_cons, List.map_cons, List.intercalate_cons_cons, isAscii_append, isAscii_append,
        hfirst, ← List.map_cons, hmore]
      rfl

end Ascii

/-- Settings that are written as a connection string are read back, each key with the
value of the last setting that has it. -/
theorem parse_render (settings : List Setting)
    (hlegal : ∀ setting ∈ settings, setting.Legal) :
    parse (render settings) = .ok { pairs := fun key =>
      (settings.reverse.find? fun setting => decide (setting.key = key)).map Setting.value } := by
  have hlast : lastOf (entries settings) = fun key =>
      (settings.reverse.find? fun setting => decide (setting.key = key)).map Setting.value := by
    funext key
    unfold lastOf entries
    rw [← List.map_reverse, List.find?_map, Option.map_map]
    rfl
  rw [parse_eq, render, String.toList_ofList, isAscii_render hlegal, if_pos rfl,
    pairsOf_render hlegal, ← hlast]
  rfl

theorem parse_render_last_wins :
    (parse (render
      [⟨"k=", "a;'", .single, [], [' '], [' '], []⟩, ⟨"k=", "", .bare, ['\t'], [], [], [' ']⟩,
        ⟨"j", "\x7b", .braces, [], [], [], ['\n']⟩])).map (fun m => (m.pairs "k=", m.pairs "j")) =
      .ok (some "", some "\x7b") := by
  rw [parse_render]
  · rfl
  · simp only [List.forall_mem_cons, List.not_mem_nil, false_imp_iff, implies_true, and_true]
    refine ⟨?_, ?_, ?_⟩
    all_goals exact ⟨rfl, by decide, rfl, by decide, by decide, rfl, by decide, by decide,
      by decide, by decide, by decide⟩

end Tiberius.AdoParser
