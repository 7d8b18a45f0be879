import LinearFcgi.Library.Lines
import LinearFcgi.Response

/-! An answer with a body is four header lines, an empty line and the body. The body
has no say in the header but through its length. -/
namespace LinearFcgi

namespace Response

/-- The header of an answer. -/
def headerLines (code : Code) (type : Http.MimeType) (length : Nat) : List Bytes :=
  [ascii "Status: " ++ ascii (toString code.num),
    ascii "Content-Type: " ++ getContentType type ++ ascii "; charset=utf-8",
    ascii "X-Content-Type-Options: nosniff",
    ascii "Content-Length: " ++ ascii (toString length)]

/-- Its text, without the empty line. -/
def header (code : Code) (type : Http.MimeType) (length : Nat) : Bytes :=
  Lines.unlines 13 10 (headerLines code type length)

/-- What is printed for a body of any type. -/
def printed (code : Code) (body : Bytes) (type : Http.MimeType) : Bytes :=
  cString (createWithBody code body type)

theorem createWithBody_eq (code : Code) (body : Bytes) (type : Http.MimeType) :
    createWithBody code body type =
      header code type body.length ++ Lines.blank 13 10 ++ body := by
  have newline : ascii "\r\n" = [13, 10] := by decide
  have blank : ascii "\r\n\r\n" = Lines.blank 13 10 := by decide
  have charset : ascii "; charset=utf-8\r\n" = ascii "; charset=utf-8" ++ [13, 10] := by decide
  simp [createWithBody, header, headerLines, Lines.unlines, newline, blank, charset]

/-! ## Decimal numbers -/

theorem toNat_digit {c : Char} (digit : c.isDigit = true) :
    48 ≤ c.toNat ∧ c.toNat ≤ 57 ∧ c.toNat.toUInt8.toNat = c.toNat := by
  have range : 48 ≤ c.toNat ∧ c.toNat ≤ 57 := by
    simpa [Char.isDigit, UInt32.le_iff_toNat_le] using digit
  refine ⟨range.1, range.2, ?_⟩
  rw [Nat.toUInt8, UInt8.toNat_ofNat']
  omega

theorem digits_toString {n : Nat} {ch : UInt8} (inside : ch ∈ ascii (toString n)) :
    isdigit ch = true := by
  obtain ⟨c, member, rfl⟩ := List.mem_map.mp inside
  have read : c ∈ Nat.toDigits 10 n := by rwa [← Nat.toList_repr]
  obtain ⟨low, high, same⟩ := toNat_digit (Nat.isDigit_of_mem_toDigits (by decide) (by decide) read)
  simp only [isdigit, Bool.and_eq_true, decide_eq_true_eq, UInt8.le_iff_toNat_le,
    UInt8.reduceToNat, same]
  exact ⟨low, high⟩

theorem decimal_toString (n : Nat) : decimal (ascii (toString n)) = n := by
  have fold (cs : List Char) (digits : ∀ c ∈ cs, c.isDigit = true) (init : Nat) :
      (cs.map fun c => c.toNat.toUInt8).foldl (fun n c => 10 * n + (c.toNat - 48)) init =
        Nat.ofDigitChars 10 cs init := by
    induction cs generalizing init with
    | nil => rfl
    | cons c cs ih =>
      rw [List.forall_mem_cons] at digits
      rw [List.map_cons, List.foldl_cons, ih digits.2, (toNat_digit digits.1).2.2,
        Nat.ofDigitChars_cons]
      rfl
  calc decimal (ascii (toString n))
      = Nat.ofDigitChars 10 (toString n).toList 0 :=
        fold _ (fun c member => Nat.isDigit_of_mem_toDigits (by decide) (by decide)
          (Nat.toList_repr ▸ member)) 0
    _ = Nat.ofDigitChars 10 (Nat.toDigits 10 n) 0 := by rw [← Nat.toList_repr]; rfl
    _ = n := Nat.ofDigitChars_ten_toDigits

theorem toString_inj {n m : Nat} (same : ascii (toString n) = ascii (toString m)) : n = m := by
  rw [← decimal_toString n, same, decimal_toString m]

/-! ## The header -/

theorem num_inj {code code' : Code} (same : code.num = code'.num) : code = code' := by
  have table : ∀ i < 37, ∀ j < 37, (Code.ofNat i).num = (Code.ofNat j).num → i = j := by
    decide +kernel
  have bound (code : Code) : code.ctorIdx < 37 := by cases code <;> decide
  rw [← Code.ofNat_ctorIdx code, ← Code.ofNat_ctorIdx code'] at same ⊢
  rw [table _ (bound _) _ (bound _) same]

/-- Nothing that ends a line, or the text. -/
def OneLine (s : Bytes) : Prop := 0 ∉ s ∧ 10 ∉ s ∧ 13 ∉ s

instance (s : Bytes) : Decidable (OneLine s) := inferInstanceAs (Decidable (_ ∧ _ ∧ _))

theorem OneLine.append {s t : Bytes} (first : OneLine s) (second : OneLine t) : OneLine (s ++ t) := by
  simp only [OneLine, List.mem_append, not_or] at first second ⊢
  exact ⟨⟨first.1, second.1⟩, ⟨first.2.1, second.2.1⟩, ⟨first.2.2, second.2.2⟩⟩

theorem oneLine_toString (n : Nat) : OneLine (ascii (toString n)) := by
  have other (ch : UInt8) (control : isdigit ch = false) : ch ∉ ascii (toString n) := by
    intro inside
    rw [digits_toString inside] at control
    cases control
  exact ⟨other 0 rfl, other 10 rfl, other 13 rfl⟩

theorem oneLine_contentType (type : Http.MimeType) : OneLine (getContentType type) := by
  cases type <;> decide

theorem headerLines_oneLine (code : Code) (type : Http.MimeType) (length : Nat) :
    ∀ line ∈ headerLines code type length, line ≠ [] ∧ OneLine line := by
  have filled (s t : Bytes) (first : s ≠ []) : s ++ t ≠ [] :=
    List.append_ne_nil_of_left_ne_nil first t
  rw [headerLines, List.forall_mem_cons, List.forall_mem_cons, List.forall_mem_cons,
    List.forall_mem_singleton]
  refine ⟨⟨filled _ _ (by decide), ?_⟩, ⟨filled _ _ (filled _ _ (by decide)), ?_⟩, by decide,
    filled _ _ (by decide), ?_⟩
  · exact .append (by decide) (oneLine_toString _)
  · exact .append (.append (by decide) (oneLine_contentType _)) (by decide)
  · exact .append (by decide) (oneLine_toString _)

theorem header_nulFree (code : Code) (type : Http.MimeType) (length : Nat) :
    0 ∉ header code type length := by
  intro inside
  rcases Lines.mem_unlines inside with ⟨line, member, found⟩ | zero | zero
  · exact (headerLines_oneLine _ _ _ line member).2.1 found
  · cases zero
  · cases zero

/-! ## Framing -/

/-- A body without a NUL is printed to its end. -/
theorem printed_eq {code : Code} {body : Bytes} {type : Http.MimeType} (text : 0 ∉ body) :
    printed code body type = header code type body.length ++ Lines.blank 13 10 ++ body := by
  have whole : 0 ∉ createWithBody code body type := by
    simp only [createWithBody_eq, List.mem_append, not_or]
    exact ⟨⟨header_nulFree code type body.length, by decide⟩, text⟩
  rw [printed, cString_of_nulFree whole, createWithBody_eq]

/-- The first empty line ends the header. -/
theorem cut_printed {code : Code} {body : Bytes} {type : Http.MimeType} (text : 0 ∉ body) :
    Lines.cut (ascii "\r\n\r\n") (printed code body type) =
      some (header code type body.length, body) := by
  have blank : ascii "\r\n\r\n" = Lines.blank 13 10 := by decide
  rw [blank, printed_eq text, header]
  exact Lines.cut_unlines (by simp [headerLines])
    (fun line inside => ⟨(headerLines_oneLine _ _ _ line inside).1,
      (headerLines_oneLine _ _ _ line inside).2.2.2⟩) (by decide) body

theorem lines_header (code : Code) (type : Http.MimeType) (length : Nat) :
    Lines.lines 13 10 (header code type length) = headerLines code type length :=
  Lines.lines_unlines (by simp [headerLines])
    fun line inside => (headerLines_oneLine _ _ _ line inside).2.2.2

/-- The code and the content type can be told from the header. -/
theorem header_inj {code code' : Code} {type type' : Http.MimeType} {length length' : Nat}
    (same : header code type length = header code' type' length') :
    code = code' ∧ getContentType type = getContentType type' ∧ length = length' := by
  have lines := congrArg (Lines.lines 13 10) same
  rw [lines_header, lines_header] at lines
  simp only [headerLines, List.cons.injEq, List.append_cancel_left_eq, List.append_cancel_right_eq,
    true_and, and_true] at lines
  exact ⟨num_inj (toString_inj lines.1), lines.2.1, toString_inj lines.2.2⟩

/-- What `sendResponse` prints for a body without a NUL is, up to the first empty line, four
header lines, and behind it the body, which `Content-Length` counts. Code, content
type and body can be told from it, and bodies of one length have the same header. -/
theorem response_framing (code : Code) (body : Bytes) (type : Http.MimeType) (text : 0 ∉ body) :
    Request.sendResponse code (some body) = printed code body .appJavascript ∧
    Lines.cut (ascii "\r\n\r\n") (printed code body type) =
      some (header code type body.length, body) ∧
    Lines.lines 13 10 (header code type body.length) =
      [ascii "Status: " ++ ascii (toString code.num),
        ascii "Content-Type: " ++ getContentType type ++ ascii "; charset=utf-8",
        ascii "X-Content-Type-Options: nosniff",
        ascii "Content-Length: " ++ ascii (toString body.length)] ∧
    (∀ ch ∈ ascii (toString body.length), isdigit ch = true) ∧
    decimal (ascii (toString body.length)) = body.length ∧
    (∀ code' body' type', 0 ∉ body' → printed code' body' type' = printed code body type →
      code' = code ∧ getContentType type' = getContentType type ∧ body' = body) ∧
    ∀ body', 0 ∉ body' → body'.length = body.length →
      Lines.cut (ascii "\r\n\r\n") (printed code body' type) =
        some (header code type body.length, body') := by
  refine ⟨rfl, cut_printed text, lines_header code type body.length,
    fun ch inside => digits_toString inside, decimal_toString body.length, ?_, ?_⟩
  · intro code' body' type' text' same
    have parts := congrArg (Lines.cut (ascii "\r\n\r\n")) same
    rw [cut_printed text', cut_printed text, Option.some_inj, Prod.mk.injEq] at parts
    obtain ⟨code_, type_, -⟩ := header_inj parts.1
    exact ⟨code_, type_, parts.2⟩
  · intro body' text' length
    rw [cut_printed text', length]

/-- A body that looks like a header itself. -/
theorem response_framing_blank :
    Lines.cut (ascii "\r\n\r\n") (printed .ok (ascii "a: b\r\n\r\nc") .appJson) =
      some (header .ok .appJson 9, ascii "a: b\r\n\r\nc") :=
  (response_framing .ok (ascii "a: b\r\n\r\nc") .appJson (by decide)).2.1

end Response
end LinearFcgi
