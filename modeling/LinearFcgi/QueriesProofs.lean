import LinearFcgi.Request
import Mathlib.Data.List.Basic

/-! What `Queries` makes of a query string: the text between two `'&'` gives a
key its value if it has an `'='`, and the first that gives a key one decides. -/
namespace LinearFcgi

namespace Queries

/-- The segment is the key, its first `'='` and the value. -/
def Gives (segment key val : Bytes) : Prop := segment = key ++ 61 :: val ∧ 61 ∉ key

/-- Of these segments the first that gives the key a value gives it this one. -/
def FirstGives (segments : List Bytes) (key val : Bytes) : Prop :=
  ∃ before segment after, segments = before ++ segment :: after ∧ Gives segment key val ∧
    ∀ earlier ∈ before, ∀ val', ¬ Gives earlier key val'

/-- A query string that gives each of these keys its value. -/
def joined (pairs : List (Bytes × Bytes)) : Bytes :=
  [38].intercalate (pairs.map fun pair => pair.1 ++ 61 :: pair.2)

/-- The value that `parseWord` finds for the key. -/
def valueOf (key segment : Bytes) : Option Bytes :=
  match segment.idxOf? 61 with
  | some pos => if segment.take pos = key then some (segment.drop (pos + 1)) else none
  | none => none

/-! ## One segment -/

variable {key val segment : Bytes} {queries : Queries} {segments : List Bytes}

theorem idxOf_split (absent : 61 ∉ key) : (key ++ 61 :: val).idxOf? 61 = some key.length := by
  induction key with
  | nil => rfl
  | cons c key ih =>
    obtain ⟨other, absent⟩ := List.ne_and_not_mem_of_not_mem_cons absent
    rw [List.cons_append, List.idxOf?_cons, ih absent]
    simp [other.symm]

theorem valueOf_split (name : Bytes) (absent : 61 ∉ key) :
    valueOf name (key ++ 61 :: val) = if key = name then some val else none := by
  simp [valueOf, idxOf_split absent]

theorem valueOf_eq_some : valueOf key segment = some val ↔ Gives segment key val := by
  by_cases equals : 61 ∈ segment
  · obtain ⟨key', val', rfl, absent⟩ := List.eq_append_cons_of_mem equals
    rw [valueOf_split key absent, Gives]
    constructor
    · intro gives
      split at gives
      · rename_i same
        subst same
        cases gives
        exact ⟨rfl, absent⟩
      · cases gives
    · rintro ⟨same, absent'⟩
      have length := congrArg (List.idxOf? 61) same
      rw [idxOf_split absent, idxOf_split absent', Option.some_inj] at length
      obtain ⟨rfl, rest⟩ := List.append_inj same length
      rw [if_pos rfl, (List.cons.inj rest).2]
  · have nothing : valueOf key segment = none := by
      rw [valueOf, List.idxOf?_eq_none_iff.mpr equals]
    rw [nothing]
    constructor
    · intro gives
      cases gives
    · rintro ⟨rfl, -⟩
      exact absurd (by simp) equals

theorem valueOf_eq_none : valueOf key segment = none ↔ ∀ val, ¬ Gives segment key val := by
  simp only [Option.eq_none_iff_forall_ne_some, ne_eq, valueOf_eq_some]

/-- A segment adds the value it gives, if the key has none yet. -/
theorem parseWord_apply (queries : Queries) (segment key : Bytes) :
    parseWord queries segment key = (queries key).or (valueOf key segment) := by
  by_cases equals : 61 ∈ segment
  · obtain ⟨name, val, rfl, absent⟩ := List.eq_append_cons_of_mem equals
    have rest : (name ++ 61 :: val).drop (name.length + 1) = val := by simp
    rw [valueOf_split key absent, parseWord, idxOf_split absent]
    simp only [List.take_left, rest, Queries.insert]
    by_cases known : (queries name).isSome
    · rw [if_pos known]
      obtain ⟨old, found⟩ := Option.isSome_iff_exists.mp known
      split
      · rename_i same
        rw [← same, found, Option.some_or]
      · rw [Option.or_none]
    · rw [if_neg known]
      split
      · rename_i same
        rw [← same, Function.update_self, Option.not_isSome_iff_eq_none.mp known, Option.none_or]
      · rename_i other
        rw [Function.update_of_ne (Ne.symm other), Option.or_none]
  · simp [parseWord, valueOf, List.idxOf?_eq_none_iff.mpr equals]

/-! ## All of them -/

theorem foldl_parseWord : (segments.foldl parseWord queries) key =
    (queries key).or (segments.findSome? (valueOf key)) := by
  induction segments generalizing queries with
  | nil => simp
  | cons segment rest ih =>
    rw [List.foldl_cons, ih, parseWord_apply, List.findSome?_cons]
    cases queries key <;> cases valueOf key segment <;> rfl

/-- What `getline` leaves out, an empty segment at the end, gives no value. -/
theorem findSome_splitFrom {f : Bytes → Option Bytes} (blank : f [] = none) (tmp data : Bytes) :
    (splitFrom tmp data).findSome? f = ((data.splitOn 38).modifyHead (tmp ++ ·)).findSome? f := by
  induction data generalizing tmp with
  | nil =>
    rw [splitFrom, List.splitOn_nil, List.modifyHead_cons, List.append_nil]
    split
    · rename_i nothing
      rw [nothing, List.findSome?_cons, blank]
    · rfl
  | cons c data ih =>
    rw [splitFrom, List.splitOn_cons_eq_if_modifyHead]
    obtain ⟨segment, rest, segments⟩ := List.exists_cons_of_ne_nil (List.splitOn_ne_nil 38 data)
    by_cases ends : c = 38
    · simp [ends, ih, segments, List.findSome?_cons]
    · simp [ends, ih, segments]

theorem parse_apply (data key : Bytes) :
    parse data key = (data.splitOn 38).findSome? (valueOf key) := by
  have blank : valueOf key [] = none := rfl
  obtain ⟨segment, rest, segments⟩ := List.exists_cons_of_ne_nil (List.splitOn_ne_nil 38 data)
  rw [parse, foldl_parseWord, split, findSome_splitFrom blank, segments]
  simp

theorem findSome_pairs {pairs : List (Bytes × Bytes)} (distinct : (pairs.map Prod.fst).Nodup) :
    pairs.findSome? (fun pair => if pair.1 = key then some pair.2 else none) = some val ↔
      (key, val) ∈ pairs := by
  induction pairs with
  | nil => simp
  | cons pair pairs ih =>
    obtain ⟨name, text⟩ := pair
    rw [List.map_cons, List.nodup_cons] at distinct
    rw [List.findSome?_cons, List.mem_cons]
    by_cases same : name = key
    · subst same
      have other : (name, val) ∉ pairs := fun inside =>
        distinct.1 (List.mem_map.mpr ⟨_, inside, rfl⟩)
      simp [other, eq_comm]
    · simp [same, Ne.symm same, ih distinct.2]

theorem findSome_written {pairs : List (Bytes × Bytes)} (plain : ∀ pair ∈ pairs, 61 ∉ pair.1)
    (key : Bytes) : pairs.findSome? (valueOf key ∘ fun pair => pair.1 ++ 61 :: pair.2) =
      pairs.findSome? fun pair => if pair.1 = key then some pair.2 else none := by
  induction pairs with
  | nil => rfl
  | cons pair pairs ih =>
    rw [List.forall_mem_cons] at plain
    rw [List.findSome?_cons, List.findSome?_cons, ih plain.2, Function.comp_apply,
      valueOf_split key plain.1]

theorem parse_joined {pairs : List (Bytes × Bytes)}
    (plain : ∀ pair ∈ pairs, 61 ∉ pair.1 ∧ 38 ∉ pair.1 ∧ 38 ∉ pair.2) (key : Bytes) :
    parse (joined pairs) key =
      pairs.findSome? fun pair => if pair.1 = key then some pair.2 else none := by
  by_cases none_ : pairs = []
  · subst none_
    rfl
  have separate : ∀ segment ∈ pairs.map (fun pair => pair.1 ++ 61 :: pair.2), 38 ∉ segment := by
    intro segment inside
    obtain ⟨pair, member, rfl⟩ := List.mem_map.mp inside
    obtain ⟨-, name, text⟩ := plain pair member
    simp [name, text]
  rw [parse_apply, joined, List.splitOn_intercalate 38 separate (by simpa using none_),
    List.findSome?_map]
  exact findSome_written (fun pair member => (plain pair member).1) key

/-- `Queries` of any string holds for a key the value which the first segment that
gives it one gives it, and none if no segment does. So of two strings joined by
`'&'` the first one takes precedence, and pairs written out, with or without a
last `'&'`, are read back. -/
theorem queries_parse :
    (∀ data key val, parse data key = some val ↔ FirstGives (data.splitOn 38) key val) ∧
    (∀ data key, parse data key = none ↔ ∀ segment ∈ data.splitOn 38, ∀ val, ¬ Gives segment key val) ∧
    (∀ a b key, parse (a ++ 38 :: b) key = (parse a key).or (parse b key)) ∧
    ∀ pairs : List (Bytes × Bytes), (pairs.map Prod.fst).Nodup →
      (∀ pair ∈ pairs, 61 ∉ pair.1 ∧ 38 ∉ pair.1 ∧ 38 ∉ pair.2) → ∀ last ∈ [[], [38]],
      ∀ key val, parse (joined pairs ++ last) key = some val ↔ (key, val) ∈ pairs := by
  have union (a b key : Bytes) : parse (a ++ 38 :: b) key = (parse a key).or (parse b key) := by
    rw [parse_apply, parse_apply, parse_apply, List.splitOn_append_cons_self, List.findSome?_append]
  refine ⟨?_, ?_, union, ?_⟩
  · intro data key val
    simp only [parse_apply, List.findSome?_eq_some_iff, valueOf_eq_some, valueOf_eq_none, FirstGives]
  · intro data key
    simp only [parse_apply, List.findSome?_eq_none_iff, valueOf_eq_none]
  · intro pairs distinct plain last ends key val
    have unended : parse (joined pairs ++ last) key = parse (joined pairs) key := by
      rcases List.mem_pair.mp ends with rfl | rfl
      · rw [List.append_nil]
      · rw [union, show parse [] key = none from rfl, Option.or_none]
    rw [unended, parse_joined plain, findSome_pairs distinct]

/-- A value may hold an `'='`, as the text of a Base64 body does, or be empty. -/
theorem queries_parse_pairs : parse (ascii "d=QQ==&e=&") (ascii "d") = some (ascii "QQ==") ∧
    parse (ascii "d=QQ==&e=&") (ascii "e") = some [] := by
  have reads := queries_parse.2.2.2 [(ascii "d", ascii "QQ=="), (ascii "e", [])] (by decide)
    (by decide) [38] (by decide)
  exact ⟨(reads _ _).mpr (by decide), (reads _ _).mpr (by decide)⟩

end Queries
end LinearFcgi
