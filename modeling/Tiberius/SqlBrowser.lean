import Tiberius.Text.Decimal
import Tiberius.Text.Terminated
import Tiberius.Utf8

/-!
The port of a named instance, from the reply of the SQL Browser. The reply is a
sequence of keys and values, but the port is looked for from the end of the bytes,
behind the last place that reads like the key, so a value or another key with the
same ending stands in for it.
-/

namespace Tiberius

open Terminated

/-- `str::from_utf8`. -/
def fromUtf8 (bytes : List UInt8) : Option String := String.fromUTF8? bytes.toByteArray

/-- `str::from_utf8` and `str::parse`, without their errors. -/
def parsePort (val : List UInt8) : Option UInt16 := do
  let text ← fromUtf8 val
  match parseUnsigned 16 text.toList with
  | .ok port => some (UInt16.ofNat port)
  | .error _ => none

namespace SqlBrowser

def semicolon : UInt8 := 0x3b

def tcpKey : List UInt8 := [0x74, 0x63, 0x70]

/-- `b"tcp;"`. -/
def delimiter : List UInt8 := tcpKey ++ [semicolon]

/-- `&buf[start..stop]`. -/
def slice (buf : List UInt8) (start stop : ℕ) : Except Fault (List UInt8) :=
  if start ≤ stop ∧ stop ≤ buf.length then .ok ((buf.take stop).drop start) else .error .panic

def unresolved (instanceName : String) : Fault :=
  .error (.conversion ("Could not resolve SQL browser instance " ++ instanceName))

def getPortFromSqlBrowserReply (buf : List UInt8) (len : ℕ) (instanceName : String) :
    Except Fault UInt16 := do
  let buf := buf.take len
  if len < 3 then .error (unresolved instanceName)
  else
    let rsp ← slice buf 3 len
    match (windows delimiter.length rsp).reverse.findIdx? (· = delimiter) with
    | none => .error (unresolved instanceName)
    | some pos =>
      -- the subtraction must not wrap
      if rsp.length < pos then .error .panic
      else
        let found ← slice rsp (rsp.length - pos) rsp.length
        match parsePort (found.takeWhile (· ≠ semicolon)) with
        | none => .error (unresolved instanceName)
        | some port => .ok port

end SqlBrowser

section Parsing

/-- The bytes of a character sequence. -/
def bytesOf (text : List Char) : List UInt8 := text.flatMap String.utf8EncodeChar

theorem fromUtf8_eq_some_iff {bytes : List UInt8} {text : String} :
    fromUtf8 bytes = some text ↔ bytes = bytesOf text.toList := by
  have hencode : (bytesOf text.toList).toByteArray = text.toByteArray := String.utf8Encode_toList
  rw [fromUtf8, String.fromUTF8?]
  constructor
  · intro hread
    split at hread
    next hvalid =>
      have htext : String.fromUTF8 bytes.toByteArray hvalid = text := Option.some.inj hread
      apply List.toByteArray_inj.mp
      rw [hencode, ← htext]
      rfl
    next => cases hread
  · intro hbytes
    have hvalid : bytes.toByteArray.IsValidUTF8 := by
      rw [hbytes, hencode]
      exact text.isValidUTF8
    rw [dif_pos hvalid, Option.some.injEq]
    apply String.toByteArray_inj.mp
    rw [← hencode, ← hbytes]
    rfl

theorem le_ofDigitChars (text : List Char) (start : ℕ) :
    start ≤ Nat.ofDigitChars 10 text start := by
  induction text generalizing start with
  | nil => exact Nat.le_refl start
  | cons c text ih =>
    rw [Nat.ofDigitChars_cons]
    have hmore := ih (10 * start + (c.toNat - '0'.toNat))
    omega

/-- The digit loop succeeds on digits alone, with their number, if it stays in bounds. -/
theorem parseDigits_eq_ok_iff {bound start value : ℕ} (hstart : start < bound)
    (text : List Char) :
    parseDigits bound start text = .ok value ↔
      (∀ c ∈ text, c.isDigit) ∧ Nat.ofDigitChars 10 text start = value ∧ value < bound := by
  induction text generalizing start with
  | nil =>
    rw [parseDigits, Nat.ofDigitChars_nil, Except.ok.injEq]
    constructor
    · rintro rfl
      exact ⟨List.forall_mem_nil _, rfl, hstart⟩
    · exact fun h => h.2.1
  | cons c text ih =>
    rw [Nat.ofDigitChars_cons, List.forall_mem_cons, Nat.mul_comm 10 start]
    by_cases hdigit : c.isDigit
    · have hvalue : digit c = some (c.toNat - '0'.toNat) := if_pos hdigit
      rw [parseDigits, hvalue]
      by_cases hbound : start * 10 + (c.toNat - '0'.toNat) < bound
      · simp only [hbound, if_true]
        rw [ih hbound]
        simp only [hdigit, true_and]
      · simp only [hbound, if_false]
        have hle := le_ofDigitChars text (start * 10 + (c.toNat - '0'.toNat))
        constructor
        · intro herror
          cases herror
        · rintro ⟨-, rfl, hless⟩
          omega
    · have hnone : digit c = none := if_neg hdigit
      rw [parseDigits, hnone]
      constructor
      · intro herror
        cases herror
      · rintro ⟨⟨hc, -⟩, -⟩
        exact absurd hc hdigit

/-- The number of at least one digit, behind a plus or not. -/
theorem parseUnsigned_eq_ok_iff {width value : ℕ} (text : List Char) :
    parseUnsigned width text = .ok value ↔ ∃ digits, DecimalText.natural digits = some value ∧
      value < 2 ^ width ∧ (text = digits ∨ text = '+' :: digits) := by
  have hdigits : ∀ digits : List Char, digits ≠ [] →
      (parseDigits (2 ^ width) 0 digits = .ok value ↔
        DecimalText.natural digits = some value ∧ value < 2 ^ width) := by
    intro digits hpos
    rw [parseDigits_eq_ok_iff (Nat.two_pow_pos width), DecimalText.natural_eq_some_iff]
    simp only [ne_eq, hpos, not_false_eq_true, true_and, and_assoc]
  have hplus : ∀ rest : List Char, DecimalText.natural ('+' :: rest) = none := by
    intro rest
    apply if_neg
    rintro ⟨-, hall⟩
    exact absurd (List.all_eq_true.mp hall '+' List.mem_cons_self) (by decide)
  unfold parseUnsigned
  split
  next =>
    constructor
    · intro herror
      cases herror
    · rintro ⟨digits, hnatural, -, rfl | htext⟩
      · cases hnatural
      · cases htext
  next =>
    constructor
    · intro herror
      cases herror
    · rintro ⟨digits, hnatural, -, rfl | htext⟩
      · cases hnatural
      · obtain ⟨-, rfl⟩ := List.cons.inj htext
        cases hnatural
  next =>
    constructor
    · intro herror
      cases herror
    · rintro ⟨digits, hnatural, -, rfl | htext⟩
      · cases hnatural
      · cases htext
  next _ rest hrest =>
    have hpos : rest ≠ [] := by
      rintro rfl
      exact hrest rfl
    rw [hdigits rest hpos]
    constructor
    · rintro ⟨hnatural, hvalue⟩
      exact ⟨rest, hnatural, hvalue, .inr rfl⟩
    · rintro ⟨digits, hnatural, hvalue, rfl | htext⟩
      · rw [hplus] at hnatural
        cases hnatural
      · obtain ⟨-, rfl⟩ := List.cons.inj htext
        exact ⟨hnatural, hvalue⟩
  next hpos _ _ hother =>
    rw [hdigits text hpos]
    constructor
    · rintro ⟨hnatural, hvalue⟩
      exact ⟨text, hnatural, hvalue, .inl rfl⟩
    · rintro ⟨digits, hnatural, hvalue, rfl | htext⟩
      · exact ⟨hnatural, hvalue⟩
      · exact absurd htext (hother digits)

/-- The field is the decimal number of the port, behind a plus or not. -/
def NamesPort (field : List UInt8) (port : UInt16) : Prop :=
  ∃ digits, DecimalText.natural digits = some port.toNat ∧
    (field = bytesOf digits ∨ field = bytesOf ('+' :: digits))

theorem parsePort_eq_some_iff {field : List UInt8} {port : UInt16} :
    parsePort field = some port ↔ NamesPort field port := by
  rw [parsePort, Option.bind_eq_bind, Option.bind_eq_some_iff]
  constructor
  · rintro ⟨text, htext, hparse⟩
    obtain hbytes := fromUtf8_eq_some_iff.mp htext
    split at hparse
    next value hvalue =>
      obtain ⟨digits, hnatural, hless, hform⟩ := (parseUnsigned_eq_ok_iff _).mp hvalue
      have hport : port.toNat = value := by
        rw [← Option.some.inj hparse, UInt16.toNat_ofNat', Nat.mod_eq_of_lt hless]
      refine ⟨digits, by rw [hnatural, hport], ?_⟩
      rcases hform with hform | hform
      · exact .inl (by rw [hbytes, hform])
      · exact .inr (by rw [hbytes, hform])
    next => cases hparse
  · rintro ⟨digits, hnatural, hform⟩
    have hvalue : ∀ text, text = digits ∨ text = '+' :: digits →
        parseUnsigned 16 text = .ok port.toNat := by
      intro text htext
      rw [parseUnsigned_eq_ok_iff]
      exact ⟨digits, hnatural, port.toNat_lt, htext⟩
    have hread : ∀ text, text = digits ∨ text = '+' :: digits → field = bytesOf text →
        fromUtf8 field = some (String.ofList text) := by
      intro text htext hfield
      rw [fromUtf8_eq_some_iff, String.toList_ofList, hfield]
    rcases hform with hform | hform
    · refine ⟨_, hread digits (.inl rfl) hform, ?_⟩
      rw [String.toList_ofList, hvalue digits (.inl rfl)]
      simp only [UInt16.ofNat_toNat]
    · refine ⟨_, hread ('+' :: digits) (.inr rfl) hform, ?_⟩
      rw [String.toList_ofList, hvalue ('+' :: digits) (.inr rfl)]
      simp only [UInt16.ofNat_toNat]

end Parsing

namespace SqlBrowser

/-- A key with its value. -/
abbrev Entry := List UInt8 × List UInt8

/-- A reply as the protocol has it: three bytes, then keys and values, exactly one
of which is the port for TCP. -/
structure SsrpReply where
  header : List UInt8
  before : List Entry
  value : List UInt8
  port : UInt16
  after : List Entry
  header_length : header.length = 3
  plain : ∀ entry ∈ before ++ (tcpKey, value) :: after,
    semicolon ∉ entry.1 ∧ semicolon ∉ entry.2
  tcp_once : ∀ entry ∈ before ++ after, entry.1 ≠ tcpKey
  names_port : NamesPort value port

namespace SsrpReply

def flatten (entries : List Entry) : List (List UInt8) :=
  entries.flatMap fun entry => [entry.1, entry.2]

/-- The fields behind the key of the port; the last one is empty. -/
def behindKey (reply : SsrpReply) : List (List UInt8) :=
  reply.value :: (flatten reply.after ++ [[]])

def fields (reply : SsrpReply) : List (List UInt8) :=
  flatten reply.before ++ tcpKey :: reply.behindKey

def bytes (reply : SsrpReply) : List UInt8 :=
  reply.header ++ terminated semicolon reply.fields

/-- The last field behind the key that ends like it, if there is one, has a field
behind it that names the same port. -/
def Unmistaken (reply : SsrpReply) : Prop :=
  ∀ front field next rest, reply.behindKey = front ++ field :: next :: rest →
    tcpKey <:+ field → (∀ other ∈ next :: rest, ¬ tcpKey <:+ other) → NamesPort next reply.port

variable (reply : SsrpReply)

theorem fields_plain {field : List UInt8} (hfield : field ∈ reply.fields) :
    semicolon ∉ field := by
  have hentries : ∀ entries : List Entry,
      (∀ entry ∈ entries, semicolon ∉ entry.1 ∧ semicolon ∉ entry.2) →
      ∀ field ∈ flatten entries, semicolon ∉ field := by
    intro entries hplain field hmem
    obtain ⟨entry, hentry, hfield⟩ := List.mem_flatMap.mp hmem
    rcases List.mem_pair.mp hfield with rfl | rfl
    · exact (hplain entry hentry).1
    · exact (hplain entry hentry).2
  have hplain := reply.plain
  rw [List.forall_mem_append, List.forall_mem_cons] at hplain
  obtain ⟨hbefore, ⟨hkey, hvalue⟩, hafter⟩ := hplain
  rw [fields, behindKey] at hfield
  simp only [List.mem_append, List.mem_cons, List.not_mem_nil, or_false] at hfield
  rcases hfield with hfield | rfl | rfl | hfield | rfl
  · exact hentries _ hbefore _ hfield
  · exact hkey
  · exact hvalue
  · exact hentries _ hafter _ hfield
  · exact List.not_mem_nil

/-- The search finds some field that ends in the key, and reads the one behind it. -/
theorem search_finds :
    ∃ pos front field next rest,
      behindLast delimiter (terminated semicolon reply.fields) = some pos ∧
      reply.fields = front ++ field :: next :: rest ∧ tcpKey <:+ field ∧
      (∀ other ∈ next :: rest, ¬ tcpKey <:+ other) ∧
      (terminated semicolon reply.fields).drop
          ((terminated semicolon reply.fields).length - pos) =
        terminated semicolon (next :: rest) := by
  have hword : semicolon ∉ tcpKey := by decide
  have hplain : ∀ field ∈ reply.fields, semicolon ∉ field := fun _ => reply.fields_plain
  cases hfound : behindLast delimiter (terminated semicolon reply.fields) with
  | none =>
    have hkey : tcpKey ∈ reply.fields :=
      List.mem_append_right _ List.mem_cons_self
    exact absurd (List.suffix_refl tcpKey)
      (behindLast_terminated_none hword hplain hfound hkey)
  | some pos =>
    obtain ⟨front, field, behind, hsplit, hfield, hlast, hback⟩ :=
      behindLast_terminated hword hplain hfound
    cases behind with
    | nil =>
      -- the empty field at the end does not end in the key
      have hend : reply.fields.getLast? = some [] := by
        rw [fields, behindKey, ← List.cons_append, ← List.cons_append, ← List.append_assoc,
          List.getLast?_concat]
      rw [hsplit, List.getLast?_concat] at hend
      rw [Option.some.inj hend] at hfield
      exact absurd (List.suffix_nil.mp hfield) (by decide)
    | cons next rest => exact ⟨pos, front, field, next, rest, rfl, hsplit, hfield, hlast, hback⟩

/-- The function reads the field behind the one that the search finds. -/
theorem getPort_reply {buf : List UInt8} {len : ℕ} (hlen : len ≤ buf.length)
    (hbytes : buf.take len = reply.bytes) (instanceName : String) :
    ∃ front field next rest, reply.fields = front ++ field :: next :: rest ∧ tcpKey <:+ field ∧
      (∀ other ∈ next :: rest, ¬ tcpKey <:+ other) ∧
      getPortFromSqlBrowserReply buf len instanceName =
        match parsePort next with
        | none => .error (unresolved instanceName)
        | some port => .ok port := by
  obtain ⟨pos, front, field, next, rest, hfound, hsplit, hfield, hlast, hback⟩ :=
    reply.search_finds
  have hnext : semicolon ∉ next := by
    apply reply.fields_plain
    rw [hsplit]
    exact List.mem_append_right _ (List.mem_cons_of_mem _ List.mem_cons_self)
  have hpos := behindLast_le hfound
  have hsize : reply.bytes.length = len := by
    rw [← hbytes, List.length_take, Nat.min_eq_left hlen]
  have hthree : 3 + (terminated semicolon reply.fields).length = len := by
    rw [← hsize, bytes, List.length_append, reply.header_length]
  have hrsp : slice (buf.take len) 3 len = .ok (terminated semicolon reply.fields) := by
    rw [hbytes, slice, if_pos (by omega), List.take_of_length_le (by omega), bytes,
      ← reply.header_length, List.drop_left]
  have hfront : slice (terminated semicolon reply.fields)
      ((terminated semicolon reply.fields).length - pos)
      (terminated semicolon reply.fields).length = .ok (terminated semicolon (next :: rest)) := by
    rw [slice, if_pos (by omega), List.take_length, hback]
  refine ⟨front, field, next, rest, hsplit, hfield, hlast, ?_⟩
  rw [getPortFromSqlBrowserReply, if_neg (by omega), hrsp]
  change (match behindLast delimiter (terminated semicolon reply.fields) with
    | none => _
    | some pos => _) = _
  rw [hfound]
  simp only [if_neg (Nat.not_lt.mpr hpos), hfront]
  change (match parsePort ((terminated semicolon (next :: rest)).takeWhile (· ≠ semicolon)) with
    | none => _
    | some port => _) = _
  rw [takeWhile_terminated hnext]

/-- Where the search ends up in the reply, it is told that the port is right. -/
theorem unmistaken_iff {front rest : List (List UInt8)} {field next : List UInt8}
    (hsplit : reply.fields = front ++ field :: next :: rest) (hfield : tcpKey <:+ field)
    (hlast : ∀ other ∈ next :: rest, ¬ tcpKey <:+ other) :
    reply.Unmistaken ↔ NamesPort next reply.port := by
  constructor
  · intro hunmistaken
    rw [fields] at hsplit
    rcases List.append_eq_append_iff.mp hsplit with ⟨inside, -, hrest⟩ | ⟨inside, -, hrest⟩
    · cases inside with
      | nil =>
        obtain ⟨-, hbehind⟩ := List.cons.inj hrest
        obtain ⟨rfl, -⟩ := List.cons.inj hbehind
        exact reply.names_port
      | cons key inside =>
        obtain ⟨-, hbehind⟩ := List.cons.inj hrest
        exact hunmistaken inside field next rest hbehind hfield hlast
    · cases inside with
      | nil =>
        obtain ⟨-, hbehind⟩ := List.cons.inj hrest
        obtain ⟨rfl, -⟩ := List.cons.inj hbehind
        exact reply.names_port
      | cons other inside =>
        -- the key itself would be behind the last field that ends in it
        obtain ⟨-, hbehind⟩ := List.cons.inj hrest
        refine absurd (List.suffix_refl tcpKey) (hlast tcpKey ?_)
        rw [hbehind]
        exact List.mem_append_right _ List.mem_cons_self
  · intro hnames front' field' next' rest' hbehind hfield' hlast'
    rw [fields, hbehind, ← List.cons_append, ← List.append_assoc] at hsplit
    obtain ⟨rfl, -⟩ := List.cons.inj (last_unique hsplit hfield' hfield hlast' hlast)
    exact hnames

end SsrpReply

theorem getPort_ne_panic {buf : List UInt8} {len : ℕ} (hlen : len ≤ buf.length)
    (instanceName : String) : getPortFromSqlBrowserReply buf len instanceName ≠ .error .panic := by
  rw [getPortFromSqlBrowserReply]
  by_cases hshort : len < 3
  · rw [if_pos hshort]
    intro hpanic
    cases hpanic
  · have hsize : (buf.take len).length = len := by
      rw [List.length_take, Nat.min_eq_left hlen]
    have hrsp : slice (buf.take len) 3 len = .ok (((buf.take len).take len).drop 3) := by
      rw [slice, if_pos (by omega)]
    rw [if_neg hshort, hrsp]
    generalize ((buf.take len).take len).drop 3 = rsp
    change (match behindLast delimiter rsp with
      | none => _
      | some pos => _) ≠ _
    cases hfound : behindLast delimiter rsp with
    | none =>
      intro hpanic
      cases hpanic
    | some pos =>
      have hpos := behindLast_le hfound
      have hfront : slice rsp (rsp.length - pos) rsp.length =
          .ok ((rsp.take rsp.length).drop (rsp.length - pos)) := by
        rw [slice, if_pos (by omega)]
      simp only [if_neg (Nat.not_lt.mpr hpos), hfront]
      change (match parsePort (List.takeWhile _ _) with
        | none => _
        | some port => _) ≠ _
      split
      all_goals
        intro hpanic
        cases hpanic

/-- The port of a reply is found just when nothing behind its key is mistaken for it,
and no bytes make the function panic. -/
theorem port_found_iff (reply : SsrpReply) (buf : List UInt8) (len : ℕ) (instanceName : String)
    (hlen : len ≤ buf.length) :
    (buf.take len = reply.bytes →
      (getPortFromSqlBrowserReply buf len instanceName = .ok reply.port ↔ reply.Unmistaken)) ∧
    getPortFromSqlBrowserReply buf len instanceName ≠ .error .panic := by
  constructor
  · intro hbytes
    obtain ⟨front, field, next, rest, hsplit, hfield, hlast, hport⟩ :=
      reply.getPort_reply hlen hbytes instanceName
    rw [hport, reply.unmistaken_iff hsplit hfield hlast, ← parsePort_eq_some_iff]
    cases parsePort next with
    | none =>
      constructor
      · intro hfound
        cases hfound
      · intro hfound
        cases hfound
    | some port => rw [Except.ok.injEq, Option.some.injEq]
  · exact getPort_ne_panic hlen instanceName

/-- A reply whose pipe for local clients has a name like the key. -/
def pipeReply : SsrpReply where
  header := [0x05, 0x1a, 0x00]
  before := []
  value := [0x31, 0x34, 0x33, 0x33]
  port := 1433
  after := [([0x6e, 0x70], [0x5c, 0x5c, 0x48, 0x5c, 0x70, 0x69, 0x70, 0x65, 0x5c, 0x74, 0x63, 0x70])]
  header_length := rfl
  plain := by decide
  tcp_once := by decide
  names_port := ⟨['1', '4', '3', '3'], by decide, .inl (by decide)⟩

/-- The reply with more bytes behind it in the buffer. -/
theorem port_found_iff_longer :
    (getPortFromSqlBrowserReply (pipeReply.bytes ++ [0, 0]) 29 "I" = .ok 1433 ↔
      pipeReply.Unmistaken) ∧
    getPortFromSqlBrowserReply (pipeReply.bytes ++ [0, 0]) 29 "I" ≠ .error .panic := by
  have hfound := port_found_iff pipeReply (pipeReply.bytes ++ [0, 0]) 29 "I" (by decide)
  exact ⟨hfound.1 rfl, hfound.2⟩

/-- The search ends at the name of the pipe, and there is no port behind it. -/
theorem pipe_mistaken :
    getPortFromSqlBrowserReply pipeReply.bytes pipeReply.bytes.length "I" =
      .error (unresolved "I") ∧
    ¬ ∀ (reply : SsrpReply) (buf : List UInt8) (len : ℕ) (instanceName : String),
      len ≤ buf.length → buf.take len = reply.bytes →
      getPortFromSqlBrowserReply buf len instanceName = .ok reply.port := by
  have hnone : parsePort [] = none := by
    by_contra hsome
    obtain ⟨port, hport⟩ := Option.ne_none_iff_exists'.mp hsome
    obtain ⟨digits, hnatural, hform⟩ := parsePort_eq_some_iff.mp hport
    have hempty : ∀ text, ([] : List UInt8) = bytesOf text → text = [] := by
      intro text htext
      rw [List.eq_nil_iff_forall_not_mem]
      intro c hc
      exact String.utf8EncodeChar_ne_nil (List.flatMap_eq_nil_iff.mp htext.symm c hc)
    rcases hform with hform | hform
    · exact (DecimalText.natural_eq_some_iff.mp hnatural).1 (hempty digits hform)
    · exact List.cons_ne_nil _ _ (hempty ('+' :: digits) hform)
  have herror : getPortFromSqlBrowserReply pipeReply.bytes pipeReply.bytes.length "I" =
      .error (unresolved "I") := by
    obtain ⟨front, field, next, rest, hsplit, hfield, hlast, hport⟩ :=
      pipeReply.getPort_reply (Nat.le_refl _) List.take_length "I"
    have hbehind : next :: rest = [[]] :=
      last_unique (hsplit.symm.trans (show pipeReply.fields =
          [tcpKey, pipeReply.value, [0x6e, 0x70]] ++ _ :: [[]] from rfl))
        hfield (show tcpKey <:+ _ from by decide) hlast (by decide)
    obtain ⟨rfl, -⟩ := List.cons.inj hbehind
    rw [hport, hnone]
  refine ⟨herror, ?_⟩
  intro hfound
  have hport := hfound pipeReply pipeReply.bytes _ "I" (Nat.le_refl _) List.take_length
  rw [herror] at hport
  cases hport

end SqlBrowser

end Tiberius
