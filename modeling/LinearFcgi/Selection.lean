import LinearFcgi.Backend

/-! What the configuration grants, and when two matchers grant the same. The
server decides twice over nested lists, each time by the first entry that
matches; a matcher that accepts less than another can only differ from it where
an entry is accepted by the one alone. -/
namespace LinearFcgi

section

variable (accepts : Bytes → Bytes → Bool)

/-- A list of origins lets an origin pass. -/
def OriginAccepted (origin : Bytes) (allowOrigins : List Bytes) : Prop :=
  origin = [] ∨ allowOrigins = [] ∨ ∃ entry ∈ allowOrigins, accepts entry origin = true

/-- `resource` is the first, in the order of the configuration, whose key
matches the channel. -/
def FirstMatch (channel : Bytes) (resources : List Resource) (resource : Resource) : Prop :=
  ∃ before after, resources = before ++ resource :: after ∧
    (∀ r ∈ before, accepts r.key channel = false) ∧ accepts resource.key channel = true

/-- The resource has a backend for this origin. -/
def Resource.Serves (origin : Bytes) (resource : Resource) : Prop :=
  resource.backend.proto ≠ .websocket ∧ OriginAccepted accepts origin resource.backend.origins

/-- The configuration gives this backend to a request for the channel. -/
def Granted (config : Option Config) (channel origin : Bytes) (backend : Backend) : Prop :=
  channel ≠ [] ∧ ∃ resources resource, config = some resources ∧
    FirstMatch accepts channel resources resource ∧ resource.Serves accepts origin ∧
    resource.backend = backend

theorem isAllowOrigin_iff {origin : Bytes} {allowOrigins : List Bytes} :
    isAllowOrigin accepts origin allowOrigins = true ↔
      OriginAccepted accepts origin allowOrigins := by
  unfold isAllowOrigin OriginAccepted
  by_cases exempt : origin = [] ∨ allowOrigins = []
  · simp only [exempt, ↓reduceIte, true_iff]
    rcases exempt with unnamed | absent
    · exact .inl unnamed
    · exact .inr (.inl absent)
  · obtain ⟨named, listed⟩ := not_or.mp exempt
    simp [named, listed]

variable {accepts}

theorem firstMatch_iff {channel : Bytes} {resources : List Resource} {resource : Resource} :
    FirstMatch accepts channel resources resource ↔
      resources.find? (fun r => accepts r.key channel) = some resource := by
  rw [List.find?_eq_some_iff_append, FirstMatch]
  constructor
  · rintro ⟨before, after, split, none_, some_⟩
    exact ⟨some_, before, after, split, fun r member => by simpa using none_ r member⟩
  · rintro ⟨some_, before, after, split, none_⟩
    exact ⟨before, after, split, fun r member => by simpa using none_ r member, some_⟩

/-- There is at most one first match. -/
theorem FirstMatch.unique {channel : Bytes} {resources : List Resource} {r r' : Resource}
    (first : FirstMatch accepts channel resources r)
    (first' : FirstMatch accepts channel resources r') : r = r' :=
  Option.some.inj ((firstMatch_iff.mp first).symm.trans (firstMatch_iff.mp first'))

theorem selectBackend_eq_some {channel origin : Bytes} {resources : List Resource}
    {backend : Backend} : selectBackend accepts channel origin resources = some backend ↔
      ∃ resource, FirstMatch accepts channel resources resource ∧
        resource.Serves accepts origin ∧ resource.backend = backend := by
  simp only [firstMatch_iff]
  induction resources with
  | nil => simp [selectBackend]
  | cons r rest ih =>
    unfold selectBackend
    by_cases here : accepts r.key channel = true
    · have first : (r :: rest).find? (fun r => accepts r.key channel) = some r :=
        List.find?_cons_of_pos here
      rw [first]
      simp only [here, ↓reduceIte, Option.some.injEq, exists_eq_left', Resource.Serves,
        ← isAllowOrigin_iff]
      by_cases socket : r.backend.proto = .websocket
      · simp [socket]
      by_cases allowed : isAllowOrigin accepts origin r.backend.origins = true <;>
        simp [socket, allowed]
    · have later : (r :: rest).find? (fun r => accepts r.key channel) =
          rest.find? fun r => accepts r.key channel := List.find?_cons_of_neg here
      rw [later]
      simpa [here] using ih

/-- The first match decides. -/
theorem FirstMatch.selects {channel origin : Bytes} {resources : List Resource} {r : Resource}
    (first : FirstMatch accepts channel resources r) {backend : Backend} :
    selectBackend accepts channel origin resources = some backend ↔
      r.Serves accepts origin ∧ r.backend = backend := by
  rw [selectBackend_eq_some]
  constructor
  · rintro ⟨r', first', serves, same⟩
    obtain rfl := first.unique first'
    exact ⟨serves, same⟩
  · rintro ⟨serves, same⟩
    exact ⟨r, first, serves, same⟩

theorem selectBackend_eq_none {channel origin : Bytes} {resources : List Resource} :
    selectBackend accepts channel origin resources = none ↔
      ∀ resource, FirstMatch accepts channel resources resource →
        ¬ resource.Serves accepts origin := by
  rw [Option.eq_none_iff_forall_ne_some]
  constructor
  · intro nothing resource first serves
    exact nothing resource.backend (selectBackend_eq_some.mpr ⟨resource, first, serves, rfl⟩)
  · intro refused backend selected
    obtain ⟨resource, first, serves, -⟩ := selectBackend_eq_some.mp selected
    exact refused resource first serves

/-- `getBackend` gives what the configuration grants, and nothing else. -/
theorem getBackend_eq_some {config : Option Config} {channel origin : Bytes} {backend : Backend} :
    getBackend accepts config channel origin = some backend ↔
      Granted accepts config channel origin backend := by
  unfold getBackend Granted
  cases config with
  | none => simp
  | some resources =>
    by_cases unnamed : channel = []
    · simp [unnamed]
    · simp [unnamed, selectBackend_eq_some]

end

/-! ## Two matchers -/

section

variable (p q : Bytes → Bytes → Bool)

/-- Every text the first matcher accepts for the pattern is accepted by the
second. -/
def Narrower (pattern : Bytes) : Prop := ∀ text, p pattern text = true → q pattern text = true

/-- Both matchers decide alike about the origin: one entry suffices for the
narrower of them, or none for the wider. -/
def SameOrigins (origin : Bytes) (allowOrigins : List Bytes) : Prop :=
  origin = [] ∨ allowOrigins = [] ∨ (∃ entry ∈ allowOrigins, p entry origin = true) ∨
    ∀ entry ∈ allowOrigins, q entry origin = false

/-- Both matchers lead to the same answer: the wider one finds no key at all,
or its first one is accepted by the narrower too and they decide alike about the
origin; or else it is not, but what comes of the narrower one's first key is
the same by chance. -/
def SameBackend (channel origin : Bytes) (resources : List Resource) : Prop :=
  ∀ r, FirstMatch q channel resources r →
    p r.key channel = true ∧
      (r.backend.proto = .websocket ∨ SameOrigins p q origin r.backend.origins) ∨
    p r.key channel = false ∧
      (¬ r.Serves q origin ∧ (∀ r', FirstMatch p channel resources r' → ¬ r'.Serves p origin) ∨
        r.Serves q origin ∧ ∃ r', FirstMatch p channel resources r' ∧ r'.Serves p origin ∧
          r'.backend = r.backend)

/-- The patterns of a resource. -/
def Resource.patterns (r : Resource) : List Bytes := r.key :: r.backend.origins

variable {p q} {origin channel : Bytes} {allowOrigins : List Bytes} {resources : List Resource}

theorem isAllowOrigin_congr (same : ∀ entry ∈ allowOrigins, p entry = q entry) :
    isAllowOrigin p origin allowOrigins = isAllowOrigin q origin allowOrigins := by
  have entries : (∃ entry ∈ allowOrigins, p entry origin = true) ↔
      ∃ entry ∈ allowOrigins, q entry origin = true := by
    refine exists_congr fun entry => and_congr_right fun inside => ?_
    rw [same entry inside]
  rw [Bool.eq_iff_iff, isAllowOrigin_iff, isAllowOrigin_iff, OriginAccepted, OriginAccepted, entries]

/-- Only what the matchers do on the configured patterns counts. -/
theorem selectBackend_congr
    (same : ∀ r ∈ resources, ∀ pattern ∈ r.patterns, p pattern = q pattern) :
    selectBackend p channel origin resources = selectBackend q channel origin resources := by
  induction resources with
  | nil => rfl
  | cons r rest ih =>
    have parts := same r List.mem_cons_self
    have key : p r.key = q r.key := parts r.key List.mem_cons_self
    have origins : isAllowOrigin p origin r.backend.origins =
        isAllowOrigin q origin r.backend.origins := isAllowOrigin_congr fun entry inside =>
      parts entry (List.mem_cons_of_mem _ inside)
    rw [selectBackend, selectBackend, key, origins,
      ih fun r inside => same r (List.mem_cons_of_mem _ inside)]

theorem originAccepted_mono (narrower : ∀ entry ∈ allowOrigins, Narrower p q entry)
    (accepted : OriginAccepted p origin allowOrigins) : OriginAccepted q origin allowOrigins := by
  rcases accepted with unnamed | absent | ⟨entry, member, accepts⟩
  · exact .inl unnamed
  · exact .inr (.inl absent)
  · exact .inr (.inr ⟨entry, member, narrower entry member origin accepts⟩)

/-- The two decide alike about the origin in no other case. -/
theorem originAccepted_agree (narrower : ∀ entry ∈ allowOrigins, Narrower p q entry) :
    (OriginAccepted p origin allowOrigins ↔ OriginAccepted q origin allowOrigins) ↔
      SameOrigins p q origin allowOrigins := by
  constructor
  · intro agree
    by_cases accepted : OriginAccepted q origin allowOrigins
    · rcases agree.mpr accepted with unnamed | absent | found
      · exact .inl unnamed
      · exact .inr (.inl absent)
      · exact .inr (.inr (.inl found))
    · refine .inr (.inr (.inr fun entry member => ?_))
      refine Bool.eq_false_iff.mpr fun accepts => accepted ?_
      exact .inr (.inr ⟨entry, member, accepts⟩)
  · intro same
    refine ⟨originAccepted_mono narrower, fun accepted => ?_⟩
    rcases same with unnamed | absent | found | none_
    · exact .inl unnamed
    · exact .inr (.inl absent)
    · exact .inr (.inr found)
    · rcases accepted with unnamed | absent | ⟨entry, member, accepts⟩
      · exact .inl unnamed
      · exact .inr (.inl absent)
      · rw [none_ entry member] at accepts
        cases accepts

theorem isAllowOrigin_agree (narrower : ∀ entry ∈ allowOrigins, Narrower p q entry) :
    isAllowOrigin p origin allowOrigins = isAllowOrigin q origin allowOrigins ↔
      SameOrigins p q origin allowOrigins := by
  rw [Bool.eq_iff_iff, isAllowOrigin_iff, isAllowOrigin_iff, originAccepted_agree narrower]

/-- A key the narrower matcher accepts is the first one for both, if it is the
first one for the wider. -/
theorem FirstMatch.narrow {r : Resource}
    (narrower : ∀ r ∈ resources, Narrower p q r.key) (first : FirstMatch q channel resources r)
    (accepts : p r.key channel = true) : FirstMatch p channel resources r := by
  obtain ⟨before, after, rfl, none_, -⟩ := first
  refine ⟨before, after, rfl, fun x member => ?_, accepts⟩
  refine Bool.eq_false_iff.mpr fun some_ => ?_
  have wide := narrower x (List.mem_append_left _ member) channel some_
  rw [none_ x member] at wide
  cases wide

/-- If the narrower matcher accepts a key, the wider one has a first key. -/
theorem exists_firstMatch (narrower : ∀ r ∈ resources, Narrower p q r.key) {r : Resource}
    (first : FirstMatch p channel resources r) : ∃ r', FirstMatch q channel resources r' := by
  obtain ⟨before, after, rfl, -, accepts⟩ := first
  have member : r ∈ before ++ r :: after := List.mem_append_right _ List.mem_cons_self
  simp only [firstMatch_iff, ← Option.isSome_iff_exists, List.find?_isSome]
  exact ⟨r, member, narrower r member channel accepts⟩

/-- A resource serves an origin for both matchers or for neither, exactly if it
never does or they decide alike about the origin. -/
theorem serves_agree {r : Resource} (narrower : ∀ entry ∈ r.backend.origins, Narrower p q entry) :
    (r.Serves p origin ↔ r.Serves q origin) ↔
      r.backend.proto = .websocket ∨ SameOrigins p q origin r.backend.origins := by
  rw [← originAccepted_agree narrower]
  by_cases socket : r.backend.proto = .websocket
  · simp [Resource.Serves, socket]
  · simp [Resource.Serves, socket]

/-- The two select the same backend in no other case. -/
theorem selectBackend_agree
    (narrower : ∀ r ∈ resources, ∀ pattern ∈ r.patterns, Narrower p q pattern) :
    selectBackend p channel origin resources = selectBackend q channel origin resources ↔
      SameBackend p q channel origin resources := by
  have keys : ∀ r ∈ resources, Narrower p q r.key := fun r member =>
    narrower r member r.key List.mem_cons_self
  have origins {r : Resource} (first : FirstMatch q channel resources r) :
      ∀ entry ∈ r.backend.origins, Narrower p q entry := by
    obtain ⟨before, after, rfl, -⟩ := first
    intro entry inside
    exact narrower r (List.mem_append_right _ List.mem_cons_self) entry
      (List.mem_cons_of_mem _ inside)
  constructor
  · intro agree r first
    by_cases accepts : p r.key channel = true
    · refine .inl ⟨accepts, (serves_agree (origins first)).mp ?_⟩
      have first' := first.narrow keys accepts
      constructor
      · intro serves
        have selected := first'.selects.mpr ⟨serves, rfl⟩
        exact (first.selects.mp (agree ▸ selected)).1
      · intro serves
        have selected := first.selects.mpr ⟨serves, rfl⟩
        exact (first'.selects.mp (agree ▸ selected)).1
    · refine .inr ⟨Bool.eq_false_iff.mpr accepts, ?_⟩
      by_cases serves : r.Serves q origin
      · have selected := first.selects.mpr ⟨serves, rfl⟩
        rw [← agree] at selected
        exact .inr ⟨serves, selectBackend_eq_some.mp selected⟩
      · refine .inl ⟨serves, selectBackend_eq_none.mp ?_⟩
        rw [agree, selectBackend_eq_none]
        intro r' first' serves'
        exact serves (first.unique first' ▸ serves')
  · intro same
    ext backend
    by_cases matched : ∃ r, FirstMatch q channel resources r
    · obtain ⟨r, first⟩ := matched
      rcases same r first with ⟨accepts, alike⟩ | ⟨-, ⟨refuses, refuses'⟩ | ⟨serves, found⟩⟩
      · have first' := first.narrow keys accepts
        rw [first'.selects, first.selects, (serves_agree (origins first)).mpr alike]
      · rw [selectBackend_eq_none.mpr refuses', first.selects]
        simp [refuses]
      · rw [selectBackend_eq_some.mpr found, first.selects]
        simp [serves]
    · have nothing : selectBackend p channel origin resources = none :=
        selectBackend_eq_none.mpr fun r first => absurd (exists_firstMatch keys first) matched
      have nothing' : selectBackend q channel origin resources = none :=
        selectBackend_eq_none.mpr fun r first => absurd ⟨r, first⟩ matched
      rw [nothing, nothing']

end

end LinearFcgi
