import GroundedOps.Agent.ArgumentText
import GroundedOps.Agent.Guardrails

/-!
# Cycle detection blocks exactly the repeats

The key of a call determines its name and its arguments as a JSON document, unless
a string has a high surrogate directly before a low one. A call is then answered as
a repeat if and only if an earlier one is the same call.
-/

namespace GroundedOps.Agent

open Python

/-! ### Calls over code points -/

namespace Argument

/-- Key of a tool call: its name and its arguments with sorted members. -/
def cycleKey (name : Str) (arguments : Argument) : Str :=
  name ++ codes ("::".toList ++ arguments.dumps true)

def isRepeat (c : CycleDetector Str) (name : Str) (arguments : Argument) :
    Bool × CycleDetector Str :=
  c.see (cycleKey name arguments)

/-- The answers to a sequence of calls. -/
def answers : CycleDetector Str → List (Str × Argument) → List Bool
  | _, [] => []
  | c, call :: calls =>
    (isRepeat c call.1 call.2).1 :: answers (isRepeat c call.1 call.2).2 calls

end Argument

/-! ### Calls whose strings are texts -/

namespace Argument

variable {F : Type} (py : Interpreter F)

mutual

/-- The value over code points; floating point numbers have none. -/
def ofJson : Json F → Argument
  | .null => .null
  | .bool b => .bool b
  | .int n => .int n
  | .float _ => .null
  | .str s => .str (codes s)
  | .arr items => .arr (ofItems items)
  | .obj members => .obj (ofMembers members)

def ofItems : List (Json F) → List Argument
  | [] => []
  | v :: items => ofJson v :: ofItems items

def ofMembers : List (Text × Json F) → List (Str × Argument)
  | [] => []
  | (k, v) :: members => (codes k, ofJson v) :: ofMembers members

end

mutual

theorem dumps_ofJson (sort : Bool) (v : Json F) (h : v.FloatFree) :
    (ofJson v).dumps sort = v.dumps py sort := by
  cases v with
  | float x => exact absurd h (by simp [Json.FloatFree])
  | str s => exact quoteStr_codes s
  | arr items => simp only [ofJson, dumps, Json.dumps, dumps_ofItems sort items h]
  | obj members =>
    simp only [ofJson, dumps, Json.dumps, dumps_ofMembers sort members h]
    cases sort with
    | false => simp [Function.comp_def, quoteStr_codes]
    | true =>
      have hsorted := sortItems_map codes_le_iff id (Json.dumpsMembers py true members)
      simp only [id_eq] at hsorted
      simp [hsorted, Function.comp_def, quoteStr_codes]
  | _ => rfl

theorem dumps_ofItems (sort : Bool) (items : List (Json F)) (h : Json.FloatFreeItems items) :
    dumpsItems sort (ofItems items) = Json.dumpsItems py sort items := by
  cases items with
  | nil => rfl
  | cons v items =>
    simp only [ofItems, dumpsItems, Json.dumpsItems, dumps_ofJson sort v h.1,
      dumps_ofItems sort items h.2]

theorem dumps_ofMembers (sort : Bool) (members : List (Text × Json F))
    (h : Json.FloatFreeMembers members) : dumpsMembers sort (ofMembers members) =
      (Json.dumpsMembers py sort members).map fun p => (codes p.1, p.2) := by
  cases members with
  | nil => rfl
  | cons p members =>
    simp only [ofMembers, dumpsMembers, Json.dumpsMembers, dumps_ofJson sort p.2 h.1,
      dumps_ofMembers sort members h.2, List.map_cons]

end

mutual

/-- Texts hold no surrogates. -/
theorem unpaired_ofJson (v : Json F) : (ofJson v).Unpaired := by
  cases v with
  | str s => exact unpaired_codes s
  | arr items => exact unpaired_ofItems items
  | obj members => exact unpaired_ofMembers members
  | _ => trivial

theorem unpaired_ofItems (items : List (Json F)) : UnpairedItems (ofItems items) := by
  cases items with
  | nil => trivial
  | cons v items => exact ⟨unpaired_ofJson v, unpaired_ofItems items⟩

theorem unpaired_ofMembers (members : List (Text × Json F)) :
    UnpairedMembers (ofMembers members) := by
  cases members with
  | nil => trivial
  | cons p members =>
    exact ⟨⟨unpaired_codes p.1, unpaired_ofJson p.2⟩, unpaired_ofMembers members⟩

end

theorem cycleKey_ofJson (name : Text) {v : Json F} (h : v.FloatFree) :
    cycleKey (codes name) (ofJson v) = codes (Agent.cycleKey py name v) := by
  rw [cycleKey, dumps_ofJson py true v h, Agent.cycleKey, List.append_assoc]
  exact List.map_append.symm

/-- On calls whose strings are texts the detector answers as the one of the agent loop, and
has seen the same keys afterwards. -/
theorem isRepeat_ofJson (c : CycleDetector) (name : Text) {v : Json F} (h : v.FloatFree) :
    isRepeat ⟨c.seen.map codes⟩ (codes name) (ofJson v) =
      ((c.isRepeat py name v).1, ⟨(c.isRepeat py name v).2.seen.map codes⟩) := by
  have hseen := List.mem_map_of_injective codes_injective (a := Agent.cycleKey py name v)
    (l := c.seen)
  rw [isRepeat, cycleKey_ofJson py name h, CycleDetector.isRepeat, CycleDetector.see,
    CycleDetector.see]
  by_cases hkey : Agent.cycleKey py name v ∈ c.seen
  · rw [if_pos (hseen.mpr hkey), if_pos hkey]
  · rw [if_neg (fun h => hkey (hseen.mp h)), if_neg hkey, List.map_cons]

end Argument

/-! ### Equal keys -/

/-- The arguments of a call: a JSON object with distinct keys at every depth. -/
structure Arguments where
  members : List (Str × Argument)
  distinctKeys : (Argument.obj members).DistinctKeys

def Arguments.value (a : Arguments) : Argument := .obj a.members

theorem Arguments.canon_eq {a b : Arguments} (h : Argument.Same a.value b.value) :
    a.value.canon = b.value.canon :=
  (Argument.same_iff_canon_eq a.distinctKeys b.distinctKeys).mp h

theorem cycleKey_eq_iff_same (m n : Str) {a b : Arguments} (ha : a.value.Unpaired)
    (hb : b.value.Unpaired) : a.value.cycleKey m = b.value.cycleKey n ↔
      m = n ∧ Argument.Same a.value b.value := by
  unfold Arguments.value at *
  rw [Argument.same_iff_canon_eq a.distinctKeys b.distinctKeys]
  constructor
  · intro h
    obtain ⟨hname, htext⟩ := Argument.split_object h
    exact ⟨hname, Argument.canon_eq_of_dumps_eq ha hb htext⟩
  · rintro ⟨rfl, hcanon⟩
    rw [Argument.cycleKey, Argument.cycleKey, ← Argument.dumps_canon, hcanon,
      Argument.dumps_canon]

/-- In the agent loop, where strings are texts, equal keys are those of equal calls. -/
theorem cycleKey_texts_iff {F : Type} (py : Interpreter F) (m n : Text)
    {members others : List (Text × Json F)} (hm : (Json.obj members).FloatFree)
    (hn : (Json.obj others).FloatFree) (hkeys : (Argument.ofJson (.obj members)).DistinctKeys)
    (hkeys' : (Argument.ofJson (.obj others)).DistinctKeys) :
    cycleKey py m (.obj members) = cycleKey py n (.obj others) ↔
      m = n ∧ Argument.Same (.ofJson (.obj members)) (.ofJson (.obj others)) := by
  rw [← codes_injective.eq_iff, ← Argument.cycleKey_ofJson py m hm,
    ← Argument.cycleKey_ofJson py n hn, ← codes_injective.eq_iff (a := m)]
  have ha := Argument.unpaired_ofJson (Json.obj members)
  have hb := Argument.unpaired_ofJson (Json.obj others)
  let a : Arguments := ⟨_, hkeys⟩
  let b : Arguments := ⟨_, hkeys'⟩
  exact cycleKey_eq_iff_same (codes m) (codes n) (a := a) (b := b) ha hb

/-! ### Answers -/

namespace Argument

/-- A call is a repeat if its key was seen before; its key is seen from then on. -/
theorem isRepeat_spec (c : CycleDetector Str) (name : Str) (arguments : Argument) :
    ((isRepeat c name arguments).1 = true ↔ arguments.cycleKey name ∈ c.seen) ∧
      ∀ key, key ∈ (isRepeat c name arguments).2.seen ↔
        key = arguments.cycleKey name ∨ key ∈ c.seen := by
  unfold isRepeat CycleDetector.see
  by_cases h : arguments.cycleKey name ∈ c.seen
  · simp only [if_pos h, true_iff]
    refine ⟨h, fun key => ⟨.inr, ?_⟩⟩
    rintro (rfl | hkey)
    · exact h
    · exact hkey
  · simp [h]

theorem answers_eq_true_iff (c : CycleDetector Str) (calls : List (Str × Argument)) (i : ℕ)
    (hi : i < calls.length) :
    (answers c calls)[i]? = some true ↔
      calls[i].2.cycleKey calls[i].1 ∈ c.seen ∨
        ∃ (j : ℕ) (hj : j < i),
          calls[j].2.cycleKey calls[j].1 = calls[i].2.cycleKey calls[i].1 := by
  induction calls generalizing c i with
  | nil => exact absurd hi (by simp)
  | cons call calls ih =>
    obtain ⟨hfirst, hseen⟩ := isRepeat_spec c call.1 call.2
    cases i with
    | zero => simpa [answers] using hfirst
    | succ i =>
      have hi' : i < calls.length := by simpa using hi
      rw [answers, List.getElem?_cons_succ, ih _ i hi', hseen]
      constructor
      · rintro ((hkey | hkey) | ⟨j, hj, hkey⟩)
        · exact .inr ⟨0, by omega, hkey.symm⟩
        · exact .inl hkey
        · exact .inr ⟨j + 1, by omega, hkey⟩
      · rintro (hkey | ⟨j, hj, hkey⟩)
        · exact .inl (.inr hkey)
        · cases j with
          | zero => exact .inl (.inl hkey.symm)
          | succ j => exact .inr ⟨j, by omega, hkey⟩

end Argument

/-- If no string of the arguments has a high surrogate directly before a low one, the detector
answers true for a call exactly if an earlier call has the same name and the same
arguments; keys are equal exactly for such calls. -/
theorem cycleDetector_exact :
    (∀ calls : List (Str × Arguments), (∀ c ∈ calls, c.2.value.Unpaired) →
      ∀ (i : ℕ) (hi : i < calls.length),
        (Argument.answers {} (calls.map fun c => (c.1, c.2.value)))[i]? = some true ↔
          ∃ (j : ℕ) (hj : j < i), calls[j].1 = calls[i].1 ∧
            Argument.Same calls[j].2.value calls[i].2.value) ∧
      ∀ (m n : Str) (a b : Arguments), a.value.Unpaired → b.value.Unpaired →
        (a.value.cycleKey m = b.value.cycleKey n ↔ m = n ∧ Argument.Same a.value b.value) := by
  refine ⟨fun calls hcalls i hi => ?_, fun m n a b ha hb => cycleKey_eq_iff_same m n ha hb⟩
  rw [Argument.answers_eq_true_iff {} _ i (by simpa using hi)]
  simp only [List.not_mem_nil, false_or, List.getElem_map]
  have hsame : ∀ (j : ℕ) (hj : j < i), calls[j].2.value.cycleKey calls[j].1 =
      calls[i].2.value.cycleKey calls[i].1 ↔
        calls[j].1 = calls[i].1 ∧ Argument.Same calls[j].2.value calls[i].2.value :=
    fun j hj => cycleKey_eq_iff_same _ _ (hcalls _ (List.getElem_mem _))
      (hcalls _ (List.getElem_mem _))
  exact exists_congr fun j => exists_congr fun hj => hsame j hj

/-- The arguments of a search, in the order of the signature. -/
def searchArguments (query : Str) (limit : ℤ) : Arguments where
  members := [(codes "query".toList, .str query), (codes "limit".toList, .int limit)]
  distinctKeys := by
    have hkeys : [codes "query".toList, codes "limit".toList].Nodup := by decide
    exact ⟨hkeys, trivial, trivial, trivial⟩

/-- The same arguments with the limit in front. -/
def swappedArguments (query : Str) (limit : ℤ) : Arguments where
  members := [(codes "limit".toList, .int limit), (codes "query".toList, .str query)]
  distinctKeys := by
    have hkeys : [codes "limit".toList, codes "query".toList].Nodup := by decide
    exact ⟨hkeys, trivial, trivial, trivial⟩

theorem unpaired_searchArguments {query : Str} (h : Python.Unpaired query) (limit : ℤ) :
    (searchArguments query limit).value.Unpaired :=
  ⟨⟨by decide, h⟩, ⟨by decide, trivial⟩, trivial⟩

theorem unpaired_swappedArguments {query : Str} (h : Python.Unpaired query) (limit : ℤ) :
    (swappedArguments query limit).value.Unpaired :=
  ⟨⟨by decide, trivial⟩, ⟨by decide, h⟩, trivial⟩

theorem canon_searchArguments (query : Str) (limit : ℤ) :
    (searchArguments query limit).value.canon =
      .obj [(codes "limit".toList, .int limit), (codes "query".toList, .str query)] := rfl

theorem canon_swappedArguments (query : Str) (limit : ℤ) :
    (swappedArguments query limit).value.canon = (searchArguments query limit).value.canon := rfl

/-- Two surrogates, the low one first: a repeat with the members swapped is blocked, a
search by the first surrogate alone is not. -/
theorem cycleDetector_exact_search :
    let search := codes "search".toList
    let calls := [(search, searchArguments [0xde00, 0xd83d] 5),
      (search, swappedArguments [0xde00, 0xd83d] 5), (search, searchArguments [0xde00] 5)]
    (Argument.answers {} (calls.map fun c => (c.1, c.2.value)))[1]? = some true ∧
      (Argument.answers {} (calls.map fun c => (c.1, c.2.value)))[2]? ≠ some true := by
  intro search calls
  have hunpaired : ∀ c ∈ calls, c.2.value.Unpaired := by
    intro c hc
    simp only [calls, List.mem_cons, List.not_mem_nil, or_false] at hc
    rcases hc with rfl | rfl | rfl
    · exact unpaired_searchArguments (by decide) 5
    · exact unpaired_swappedArguments (by decide) 5
    · exact unpaired_searchArguments (by decide) 5
  have hexact := cycleDetector_exact.1 calls hunpaired
  constructor
  · refine (hexact 1 (by decide)).mpr ⟨0, by decide, rfl, ?_⟩
    exact Argument.same_of_canon_eq _ _ (canon_swappedArguments _ _).symm
  · intro htrue
    obtain ⟨j, hj, -, hsame⟩ := (hexact 2 (by decide)).mp htrue
    have hcanon : (searchArguments [0xde00, 0xd83d] 5).value.canon =
        (searchArguments [0xde00] 5).value.canon := by
      interval_cases j
      · exact Arguments.canon_eq hsame
      · exact (canon_swappedArguments _ _).symm.trans (Arguments.canon_eq hsame)
    rw [canon_searchArguments, canon_searchArguments] at hcanon
    simp at hcanon

/-- A search by the two halves of a surrogate pair and one by the character they encode have
one key, so the second is blocked, though their queries differ. -/
theorem cycleKey_joins_surrogates :
    let search := codes "search".toList
    let halves := searchArguments [0xd83d, 0xde00] 5
    let whole := searchArguments [0x1f600] 5
    ¬ Argument.Same halves.value whole.value ∧
      halves.value.cycleKey search = whole.value.cycleKey search ∧
      Argument.answers {} [(search, halves.value), (search, whole.value)] = [false, true] := by
  intro search halves whole
  refine ⟨fun hsame => ?_, by decide +kernel, by decide +kernel⟩
  have hcanon := Arguments.canon_eq hsame
  rw [canon_searchArguments, canon_searchArguments] at hcanon
  simp at hcanon

end GroundedOps.Agent
