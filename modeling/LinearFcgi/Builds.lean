import LinearFcgi.Selection
import Mathlib.Data.List.Infix

/-! The two builds of `getBackend` and `isAllowOrigin`. With PCRE a key or an
entry is a pattern, and accepts what it matches at the start, as far as
`pcre_exec` says so with a positive result; without, it accepts itself. -/
namespace LinearFcgi

/-- What the program uses of libpcre. -/
structure Pcre where
  Code : Type
  /-- `pcre_compile(pattern, 0, …)` -/
  compile : Bytes → Option Code
  /-- `pcre_exec(code, NULL, subject, …, 0, PCRE_ANCHORED, ovec, ovecsize)` -/
  exec : Option Code → Bytes → Nat → Int

/-- `N`. The vector has three times as many elements, but this is passed as its
size. -/
def ovecsize : Nat := 10

/-- The test of the build with PCRE. -/
def Pcre.accepts (pcre : Pcre) (pattern text : Bytes) : Bool :=
  0 < pcre.exec (pcre.compile pattern) text ovecsize

/-- The test of the build without. -/
def equal (pattern text : Bytes) : Bool := pattern = text

section

variable (pcre : Pcre)

/-- What is relied on of `pcre_exec`: it reports an error for a pattern that did
not compile and for a text that does not match, and otherwise one more than the
number of the highest group that matched, or 0 where a third of the vector has
no room for that many. -/
structure Pcre.Documented (highest : pcre.Code → Bytes → Option Nat) : Prop where
  uncompiled : ∀ text size, pcre.exec none text size < 0
  unmatched : ∀ re text size, highest re text = none → pcre.exec (some re) text size < 0
  matched : ∀ re text size group, highest re text = some group →
    pcre.exec (some re) text size = if group + 1 ≤ size / 3 then (group : Int) + 1 else 0

variable {pcre} (highest : pcre.Code → Bytes → Option Nat)

/-- The pattern matches the text at its start. -/
def matchesStart (pattern text : Bytes) : Bool :=
  (pcre.compile pattern).any fun re => (highest re text).isSome

/-- It does, and no group beyond the second takes part. -/
def matchesFew (pattern text : Bytes) : Bool :=
  (pcre.compile pattern).any fun re => (highest re text).any (· ≤ 2)

variable {highest}

theorem matchesFew_narrower (pattern : Bytes) :
    Narrower (matchesFew highest) (matchesStart highest) pattern := by
  intro text few
  simp only [matchesFew, matchesStart, Option.any_eq_true] at *
  obtain ⟨re, compiled, group, found, -⟩ := few
  exact ⟨re, compiled, by simp [found]⟩

/-- The size that is passed leaves room for two groups. -/
theorem accepts_eq_matchesFew (documented : pcre.Documented highest) :
    pcre.accepts = matchesFew highest := by
  funext pattern text
  unfold Pcre.accepts matchesFew
  cases compiled : pcre.compile pattern with
  | none =>
    have failed := documented.uncompiled text ovecsize
    simpa using Int.le_of_lt failed
  | some re =>
    cases found : highest re text with
    | none =>
      have failed := documented.unmatched re text ovecsize found
      simpa [found] using Int.le_of_lt failed
    | some group =>
      rw [documented.matched re text ovecsize group found, Option.any_some, found, Option.any_some]
      by_cases few : group ≤ 2
      · have room : group + 1 ≤ ovecsize / 3 := Nat.succ_le_succ few
        simp only [room, few, ↓reduceIte, decide_true, decide_eq_true_eq]
        omega
      · have full : ¬ group + 1 ≤ ovecsize / 3 := fun room => few (Nat.le_of_succ_le_succ room)
        simp [full, few]

/-- The build with PCRE accepts an origin, and selects a backend, as the
patterns say, exactly where it makes no difference whether a match in which a
third group takes part counts. -/
theorem pcre_build_iff (documented : pcre.Documented highest) :
    (∀ origin allowOrigins,
      (isAllowOrigin pcre.accepts origin allowOrigins = true ↔
        OriginAccepted (matchesStart highest) origin allowOrigins) ↔
      SameOrigins (matchesFew highest) (matchesStart highest) origin allowOrigins) ∧
    ∀ config channel origin,
      (∀ backend, getBackend pcre.accepts config channel origin = some backend ↔
        Granted (matchesStart highest) config channel origin backend) ↔
      ∀ resources, config = some resources → channel ≠ [] →
        SameBackend (matchesFew highest) (matchesStart highest) channel origin resources := by
  rw [accepts_eq_matchesFew documented]
  constructor
  · intro origin allowOrigins
    rw [isAllowOrigin_iff]
    exact originAccepted_agree fun entry _ => matchesFew_narrower entry
  · intro config channel origin
    simp only [← getBackend_eq_some, ← Option.ext_iff]
    cases config with
    | none => simp [getBackend]
    | some resources =>
      by_cases unnamed : channel = []
      · simp [getBackend, unnamed]
      · have agree :
            selectBackend (matchesFew highest) channel origin resources =
                selectBackend (matchesStart highest) channel origin resources ↔
              SameBackend (matchesFew highest) (matchesStart highest) channel origin resources :=
          selectBackend_agree fun r _ pattern _ => matchesFew_narrower pattern
        simpa [getBackend, unnamed] using agree

/-! ## Literals -/

/-- What has a meaning of its own in a pattern, outside of a bracket. -/
def metacharacters : Bytes := ascii "\\^$.[|()?*+\x7b"

/-- The pattern stands for itself. -/
def Literal (pattern : Bytes) : Prop := ∀ c ∈ pattern, c ≠ 0 ∧ c ∉ metacharacters

instance (pattern : Bytes) : Decidable (Literal pattern) :=
  inferInstanceAs (Decidable (∀ c ∈ pattern, c ≠ 0 ∧ c ∉ metacharacters))

/-- A literal has no groups and matches where it stands. -/
def Pcre.Literally (highest : pcre.Code → Bytes → Option Nat) : Prop :=
  ∀ pattern, Literal pattern → ∃ re, pcre.compile pattern = some re ∧
    ∀ text, highest re text = if pattern <+: text then some 0 else none

/-- What is left of the test of the build with PCRE. -/
def startsWith (pattern text : Bytes) : Bool := pattern <+: text

theorem equal_narrower (pattern : Bytes) : Narrower equal startsWith pattern := by
  intro text same
  obtain rfl : pattern = text := by simpa [equal] using same
  simp [startsWith]

theorem accepts_eq_startsWith (documented : pcre.Documented highest)
    (literally : pcre.Literally highest) {pattern : Bytes} (literal : Literal pattern) :
    pcre.accepts pattern = startsWith pattern := by
  obtain ⟨re, compiled, matched⟩ := literally pattern literal
  funext text
  rw [accepts_eq_matchesFew documented, matchesFew, compiled, Option.any_some, matched, startsWith]
  by_cases starts : pattern <+: text <;> simp [starts]

/-- The builds agree on an origin exactly if it is on the list or no entry is a
prefix of it; and on a backend exactly if it makes no difference whether a
prefix counts. What the build without PCRE accepts, the other does. -/
theorem literal_builds_iff (documented : pcre.Documented highest)
    (literally : pcre.Literally highest) :
    (∀ origin allowOrigins, (∀ entry ∈ allowOrigins, Literal entry) →
      ((isAllowOrigin pcre.accepts origin allowOrigins =
          isAllowOrigin equal origin allowOrigins ↔
        origin = [] ∨ origin ∈ allowOrigins ∨ ∀ entry ∈ allowOrigins, ¬ entry <+: origin) ∧
      (isAllowOrigin equal origin allowOrigins = true →
        isAllowOrigin pcre.accepts origin allowOrigins = true))) ∧
    ∀ config channel origin,
      (∀ resources, config = some resources → ∀ r ∈ resources, ∀ pattern ∈ r.patterns,
        Literal pattern) →
      (getBackend pcre.accepts config channel origin = getBackend equal config channel origin ↔
        ∀ resources, config = some resources → channel ≠ [] →
          SameBackend equal startsWith channel origin resources) := by
  constructor
  · intro origin allowOrigins literal
    have tests : isAllowOrigin pcre.accepts origin allowOrigins =
        isAllowOrigin startsWith origin allowOrigins := isAllowOrigin_congr fun entry inside =>
      accepts_eq_startsWith documented literally (literal entry inside)
    have narrower : ∀ entry ∈ allowOrigins, Narrower equal startsWith entry :=
      fun entry _ => equal_narrower entry
    rw [tests]
    constructor
    · rw [eq_comm, isAllowOrigin_agree narrower]
      cases allowOrigins with
      | nil => simp [SameOrigins]
      | cons entry rest => simp [SameOrigins, equal, startsWith]
    · rw [isAllowOrigin_iff, isAllowOrigin_iff]
      exact originAccepted_mono narrower
  · intro config channel origin literal
    cases config with
    | none => simp [getBackend]
    | some resources =>
      have tests : selectBackend pcre.accepts channel origin resources =
          selectBackend startsWith channel origin resources :=
        selectBackend_congr fun r inside pattern part =>
          accepts_eq_startsWith documented literally (literal resources rfl r inside pattern part)
      have agree : selectBackend equal channel origin resources =
            selectBackend startsWith channel origin resources ↔
          SameBackend equal startsWith channel origin resources :=
        selectBackend_agree fun r _ pattern _ => equal_narrower pattern
      by_cases unnamed : channel = []
      · simp [getBackend, unnamed]
      · simpa [getBackend, unnamed, tests, eq_comm] using agree

end

/-- Just so much of libpcre that literals and groups around them work. -/
def Sample.pcre : Pcre where
  Code := Bytes × Nat
  compile pattern := if pattern.any fun c => c ∈ metacharacters ∧ c ∉ ascii "()" then none
    else some (pattern.filter (· ∉ ascii "()"), pattern.count 40)
  exec
    | none, _, _ => -2
    | some (literal, groups), text, size =>
      if literal <+: text then if groups + 1 ≤ size / 3 then groups + 1 else 0 else -1

def Sample.highest (re : Sample.pcre.Code) (text : Bytes) : Option Nat :=
  if re.1 <+: text then some re.2 else none

theorem Sample.pcre_documented : Sample.pcre.Documented Sample.highest where
  uncompiled text size := by simp [Sample.pcre]
  unmatched re text size none_ := by
    obtain ⟨literal, groups⟩ := re
    have away : ¬ literal <+: text := by simpa [Sample.highest] using none_
    simp [Sample.pcre, away]
  matched re text size group found := by
    obtain ⟨literal, groups⟩ := re
    obtain ⟨starts, rfl⟩ : literal <+: text ∧ groups = group := by
      simpa [Sample.highest] using found
    simp [Sample.pcre, starts]

/-- A server for everyone. -/
def Sample.service (key : String) : Resource :=
  ⟨ascii key, ascii "127.0.0.1", 8080, .tcp, []⟩

theorem pcre_build_three_groups :
    Sample.pcre.Documented Sample.highest ∧
    ¬ ∀ backend, getBackend Sample.pcre.accepts (some [Sample.service "(a)(b)(c)"]) (ascii "abc")
        [] = some backend ↔
      Granted (matchesStart Sample.highest) (some [Sample.service "(a)(b)(c)"]) (ascii "abc") []
        backend := by
  refine ⟨Sample.pcre_documented, fun agree => ?_⟩
  have refused : getBackend Sample.pcre.accepts (some [Sample.service "(a)(b)(c)"]) (ascii "abc")
      [] = none := by decide +kernel
  have granted : getBackend (matchesStart Sample.highest) (some [Sample.service "(a)(b)(c)"])
      (ascii "abc") [] = some (Sample.service "(a)(b)(c)").backend := by decide +kernel
  rw [refused] at agree
  cases (agree _).mpr (getBackend_eq_some.mp granted)

/-- With two groups the pattern is found, as the configuration grants it. -/
theorem pcre_build_two_groups :
    getBackend Sample.pcre.accepts (some [Sample.service "(a)(b)"]) (ascii "abc") [] =
        some (Sample.service "(a)(b)").backend ∧
    Granted (matchesStart Sample.highest) (some [Sample.service "(a)(b)"]) (ascii "abc") []
      (Sample.service "(a)(b)").backend := by
  have found : getBackend Sample.pcre.accepts (some [Sample.service "(a)(b)"]) (ascii "abc") [] =
      some (Sample.service "(a)(b)").backend := by decide +kernel
  refine ⟨found, (((pcre_build_iff Sample.pcre_documented).2 (some [Sample.service "(a)(b)"])
    (ascii "abc") []).mpr ?_ _).mp found⟩
  intro resources configured named r first
  obtain rfl : [Sample.service "(a)(b)"] = resources := Option.some.inj configured
  obtain ⟨before, after, split, -, -⟩ := first
  obtain rfl : Sample.service "(a)(b)" = r := by
    have inside : r ∈ [Sample.service "(a)(b)"] := by rw [split]; simp
    exact (List.mem_singleton.mp inside).symm
  exact .inl ⟨by decide +kernel, .inr (.inr (.inl rfl))⟩

theorem Sample.pcre_literally : Sample.pcre.Literally Sample.highest := by
  intro pattern literal
  have parens : ∀ c ∈ ascii "()", c ∈ metacharacters := by decide +kernel
  have compiles : ∀ c ∈ pattern, ¬ (c ∈ metacharacters ∧ c ∉ ascii "()") := fun c inside =>
    fun has => (literal c inside).2 has.1
  have plain : ∀ c ∈ pattern, c ∉ ascii "()" := fun c inside paren =>
    (literal c inside).2 (parens c paren)
  have ungrouped : pattern.count 40 = 0 := List.count_eq_zero.mpr fun inside =>
    plain 40 inside (by decide +kernel)
  refine ⟨(pattern, 0), ?_, fun text => rfl⟩
  have kept : pattern.filter (· ∉ ascii "()") = pattern :=
    List.filter_eq_self.mpr fun c inside => by simpa using plain c inside
  have read : (pattern.any fun c => c ∈ metacharacters ∧ c ∉ ascii "()") = false := by
    simpa using fun c inside => not_and_not_right.mp (compiles c inside)
  simp only [Sample.pcre, read, kept, ungrouped, Bool.false_eq_true, ↓reduceIte]

theorem literal_builds_differ :
    Sample.pcre.Documented Sample.highest ∧ Sample.pcre.Literally Sample.highest ∧
    (∀ pattern ∈ (Sample.service "ch").patterns, Literal pattern) ∧
    getBackend Sample.pcre.accepts (some [Sample.service "ch"]) (ascii "chat") [] ≠
      getBackend equal (some [Sample.service "ch"]) (ascii "chat") [] ∧
    Literal (ascii "http://example") ∧
    isAllowOrigin Sample.pcre.accepts (ascii "http://example.invalid") [ascii "http://example"] ≠
      isAllowOrigin equal (ascii "http://example.invalid") [ascii "http://example"] :=
  ⟨Sample.pcre_documented, Sample.pcre_literally, by decide +kernel, by decide +kernel,
    by decide +kernel, by decide +kernel⟩

theorem literal_builds_listed :
    isAllowOrigin Sample.pcre.accepts (ascii "http://example") [ascii "http://example"] =
      isAllowOrigin equal (ascii "http://example") [ascii "http://example"] :=
  (((literal_builds_iff Sample.pcre_documented Sample.pcre_literally).1 (ascii "http://example")
    [ascii "http://example"] (by decide +kernel)).1).mpr (.inr (.inl List.mem_cons_self))

end LinearFcgi
