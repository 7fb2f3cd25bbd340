import Presence.Data.Fields
import Presence.Data.Search
import Presence.Ota.Version

namespace Presence.Ota

open Presence.Data Presence.Firmware

/-! # The version inside an image

`ImageVersion` of `fwsign.go`, which the release tool holds against the version it is to
sign, and `checkImageVersion` around it.
-/

def versionMarker : List UInt8 := ascii "PRESENCE_FW_VERSION="

inductive ImageVersionError where
  /-- version marker is not NUL-terminated within 17 bytes -/
  | unterminated
  | disagreeing (found v : List UInt8)
  | noMarker
  | invalid (found : List UInt8)
deriving DecidableEq, Repr

def valid (v : List UInt8) : Bool := (parse v).isSome

/-- What stands before the first NUL, where that comes soon enough. -/
def nulTerminated (rest : List UInt8) : Option (List UInt8) :=
  match rest.findIdx? (· == 0) with
  | none => none
  | some stop => if stop > maxLen then none else some (rest.take stop)

/-- The loop over the markers; the empty version stands for none found yet. -/
def imageVersionLoop : Nat → List UInt8 → List UInt8 → Except ImageVersionError (List UInt8)
  | 0, found, _ => .ok found
  | fuel + 1, found, rest =>
    match Search.index versionMarker rest with
    | none => .ok found
    | some i =>
      let rest := rest.drop (i + versionMarker.length)
      match nulTerminated rest with
      | none => .error .unterminated
      | some v =>
        if found ≠ [] ∧ v ≠ found then .error (.disagreeing found v)
        else imageVersionLoop fuel v rest

def imageVersion (image : List UInt8) : Except ImageVersionError (List UInt8) :=
  match imageVersionLoop image.length [] image with
  | .error error => .error error
  | .ok found =>
    if found = [] then .error .noMarker
    else if !valid found then .error (.invalid found)
    else .ok found

inductive CheckError where
  | image (error : ImageVersionError)
  | builtAs (built version : List UInt8)
deriving DecidableEq, Repr

def checkImageVersion (img version : List UInt8) : Except CheckError Unit :=
  match imageVersion img with
  | .error error => .error (.image error)
  | .ok built => if built ≠ version then .error (.builtAs built version) else .ok ()

/-! ## One marker -/

theorem nulTerminated_eq_some_iff {rest v : List UInt8} :
    nulTerminated rest = some v ↔ 0 ∉ v ∧ v.length ≤ maxLen ∧ v ++ [0] <+: rest := by
  rw [nulTerminated]
  constructor
  · intro read
    split at read
    next => exact absurd read nofun
    next stop found =>
      obtain ⟨inside, nul, plain⟩ := List.findIdx?_eq_some_iff_getElem.mp found
      split at read
      next => exact absurd read nofun
      next short =>
        obtain rfl := Option.some.inj read
        refine ⟨fun zero => ?_, by rw [List.length_take]; omega, ?_⟩
        · obtain ⟨i, low, same⟩ := List.mem_iff_getElem.mp zero
          rw [List.length_take] at low
          rw [List.getElem_take] at same
          have different := plain i (by omega)
          simp [same] at different
        · have last : rest[stop] = 0 := by simpa using nul
          rw [← last, List.take_append_getElem inside]
          exact List.take_prefix _ _
  · rintro ⟨plain, short, tail, rfl⟩
    have found : (v ++ [0] ++ tail).findIdx? (· == 0) = some v.length := by
      rw [List.append_assoc, List.findIdx?_append]
      have missed : v.findIdx? (· == 0) = none := by
        rw [List.findIdx?_eq_none_iff]
        intro byte inside
        exact Bool.eq_false_iff.mpr fun zero => plain (eq_of_beq zero ▸ inside)
      rw [missed]
      simp [List.findIdx?_cons]
    rw [found]
    simp only [if_neg (Nat.not_lt.mpr short), List.append_assoc, List.take_left]

/-- A text that the loop can find and keep. -/
def Findable (v : List UInt8) : Prop := v ≠ [] ∧ 0 ∉ v ∧ v.length ≤ maxLen

theorem findable_of_valid {v : List UInt8} (accepted : valid v = true) : Findable v := by
  obtain ⟨code, read⟩ := Option.isSome_iff_exists.mp accepted
  have plain : 0 ∉ v := not_mem_version (by decide) (by decide) read
  rw [parse] at read
  split at read
  next => cases read
  next sized =>
    refine ⟨?_, plain, by omega⟩
    rintro rfl
    exact sized (.inl rfl)

theorem Findable.nulTerminated {rest v : List UInt8} (findable : Findable v) :
    nulTerminated rest = some v ↔ v ++ [0] <+: rest := by
  obtain ⟨-, plain, short⟩ := findable
  rw [nulTerminated_eq_some_iff]
  exact ⟨fun read => read.2.2, fun carried => ⟨plain, short, carried⟩⟩

theorem nulTerminated_nil {rest : List UInt8} : nulTerminated rest = some [] ↔ [0] <+: rest := by
  rw [nulTerminated_eq_some_iff]
  exact ⟨fun read => read.2.2, fun carried => ⟨List.not_mem_nil, Nat.zero_le _, carried⟩⟩

/-! ## The loop -/

/-- The markers of an image, each as what lies behind it. -/
def markers (image : List UInt8) : List (List UInt8) := Search.behind versionMarker image

theorem markers_of_none {rest : List UInt8} (missing : Search.index versionMarker rest = none) :
    markers rest = [] := Search.behind_of_index_none missing

theorem markers_of_some {rest : List UInt8} {i : Nat}
    (found : Search.index versionMarker rest = some i) :
    markers rest = rest.drop (i + versionMarker.length) ::
      markers (rest.drop (i + versionMarker.length)) :=
  Search.behind_of_index_some (by decide) (by decide) found

/-- One turn of the loop. -/
theorem imageVersionLoop_succ {fuel : Nat} {found rest : List UInt8}
    (enough : rest.length ≤ fuel + 1) :
    (markers rest = [] ∧ imageVersionLoop (fuel + 1) found rest = .ok found) ∨
    ∃ tail, markers rest = tail :: markers tail ∧ tail.length ≤ fuel ∧
      imageVersionLoop (fuel + 1) found rest =
        match nulTerminated tail with
        | none => .error .unterminated
        | some v =>
          if found ≠ [] ∧ v ≠ found then .error (.disagreeing found v)
          else imageVersionLoop fuel v tail := by
  rw [imageVersionLoop]
  cases place : Search.index versionMarker rest with
  | none => exact .inl ⟨markers_of_none place, rfl⟩
  | some i =>
    have marked : versionMarker.length = 20 := rfl
    refine .inr ⟨_, markers_of_some place, ?_, rfl⟩
    rw [List.length_drop]
    omega

/-- Once a version has been found, all other markers are to carry the same. -/
theorem imageVersionLoop_found {v : List UInt8} (findable : Findable v) (fuel : Nat)
    (rest : List UInt8) (enough : rest.length ≤ fuel) (w : List UInt8) :
    imageVersionLoop fuel v rest = .ok w ↔ w = v ∧ ∀ tail ∈ markers rest, v ++ [0] <+: tail := by
  induction fuel generalizing rest with
  | zero =>
    obtain rfl := List.eq_nil_of_length_eq_zero (Nat.le_zero.mp enough)
    rw [markers_of_none rfl]
    simp [imageVersionLoop, eq_comm]
  | succ fuel ih =>
    obtain ⟨none, result⟩ | ⟨tail, later, shorter, result⟩ := imageVersionLoop_succ enough
    · rw [none, result]
      simp [eq_comm]
    · rw [later, result, List.forall_mem_cons, ← findable.nulTerminated]
      cases read : nulTerminated tail with
      | none => simp
      | some other =>
        by_cases same : other = v
        · subst same
          simp [ih tail shorter]
        · simp [findable.1, same]

/-- Empty versions in front of the first other one are passed over. -/
theorem imageVersionLoop_nil {v : List UInt8} (findable : Findable v) (fuel : Nat)
    (rest : List UInt8) (enough : rest.length ≤ fuel) :
    imageVersionLoop fuel [] rest = .ok v ↔ ∃ blank carrying, markers rest = blank ++ carrying ∧
      carrying ≠ [] ∧ (∀ tail ∈ blank, [0] <+: tail) ∧ ∀ tail ∈ carrying, v ++ [0] <+: tail := by
  induction fuel generalizing rest with
  | zero =>
    obtain rfl := List.eq_nil_of_length_eq_zero (Nat.le_zero.mp enough)
    rw [markers_of_none rfl]
    simp [imageVersionLoop, findable.1.symm]
  | succ fuel ih =>
    obtain ⟨none, result⟩ | ⟨tail, later, shorter, result⟩ := imageVersionLoop_succ enough
    · rw [none, result]
      simp [findable.1.symm]
    rw [later, result]
    constructor
    · intro accepted
      cases read : nulTerminated tail with
      | none => simp [read] at accepted
      | some other =>
        simp only [read, ne_eq, not_true_eq_false, false_and, if_false] at accepted
        by_cases empty : other = []
        · subst empty
          obtain ⟨blank, carrying, same, some, blanks, carried⟩ := (ih tail shorter).mp accepted
          refine ⟨tail :: blank, carrying, by rw [same]; rfl, some, ?_, carried⟩
          exact List.forall_mem_cons.mpr ⟨nulTerminated_nil.mp read, blanks⟩
        · obtain ⟨plain, short, carried⟩ := nulTerminated_eq_some_iff.mp read
          obtain ⟨rfl, others⟩ :=
            (imageVersionLoop_found ⟨empty, plain, short⟩ fuel tail shorter v).mp accepted
          exact ⟨[], _, rfl, List.cons_ne_nil _ _, nofun,
            List.forall_mem_cons.mpr ⟨carried, others⟩⟩
    · rintro ⟨blank, carrying, same, some, blanks, carried⟩
      cases blank with
      | nil =>
        obtain rfl : carrying = tail :: markers tail := same.symm
        obtain ⟨here, others⟩ := List.forall_mem_cons.mp carried
        have accepted :=
          (imageVersionLoop_found findable fuel tail shorter v).mpr ⟨rfl, others⟩
        simp [findable.nulTerminated.mpr here, accepted]
      | cons first blank =>
        obtain ⟨head, remaining⟩ := List.cons.inj same
        subst head
        obtain ⟨here, others⟩ := List.forall_mem_cons.mp blanks
        have accepted :=
          (ih tail shorter).mpr ⟨blank, carrying, remaining, some, others, carried⟩
        simp [nulTerminated_nil.mpr here, accepted]

/-! ## What is accepted -/

theorem imageVersion_iff {image v : List UInt8} :
    imageVersion image = .ok v ↔ valid v = true ∧ ∃ blank carrying,
      markers image = blank ++ carrying ∧ carrying ≠ [] ∧ (∀ tail ∈ blank, [0] <+: tail) ∧
      ∀ tail ∈ carrying, v ++ [0] <+: tail := by
  have loop : imageVersion image = .ok v ↔
      valid v = true ∧ imageVersionLoop image.length [] image = .ok v := by
    rw [imageVersion]
    constructor
    · intro accepted
      split at accepted
      next => exact absurd accepted nofun
      next found result =>
        split at accepted
        next => exact absurd accepted nofun
        next =>
          split at accepted
          next => exact absurd accepted nofun
          next known =>
            obtain rfl := Except.ok.inj accepted
            exact ⟨by simpa using known, result⟩
    · rintro ⟨accepted, result⟩
      simp [result, accepted, (findable_of_valid accepted).1]
  rw [loop]
  refine and_congr_right fun accepted => ?_
  exact imageVersionLoop_nil (findable_of_valid accepted) _ _ le_rfl

/-- The release tool signs under the version that the image was read to carry. -/
theorem checkImageVersion_iff {img version : List UInt8} :
    checkImageVersion img version = .ok () ↔ imageVersion img = .ok version := by
  rw [checkImageVersion]
  cases imageVersion img with
  | error error => simp
  | ok built => simp

/-- Every marker of the image carries the version. -/
def Carries (image v : List UInt8) : Prop :=
  valid v = true ∧ (∃ front rest, image = front ++ versionMarker ++ rest) ∧
    ∀ front rest, image = front ++ versionMarker ++ rest → v ++ [0] <+: rest

/-- The first markers are empty, and all others carry one valid version. -/
def BlankFirst (image : List UInt8) : Prop :=
  ∃ v, valid v = true ∧ ∃ blank carrying, markers image = blank ++ carrying ∧ blank ≠ [] ∧
    carrying ≠ [] ∧ (∀ tail ∈ blank, [0] <+: tail) ∧ ∀ tail ∈ carrying, v ++ [0] <+: tail

theorem carries_iff {image v : List UInt8} : Carries image v ↔
    valid v = true ∧ markers image ≠ [] ∧ ∀ tail ∈ markers image, v ++ [0] <+: tail := by
  refine and_congr_right fun _ => and_congr ?_ ?_
  · constructor
    · rintro ⟨front, rest, same⟩
      exact List.ne_nil_of_mem (Search.mem_behind.mpr ⟨front, same⟩)
    · intro some
      obtain ⟨rest, marked⟩ := List.exists_mem_of_ne_nil _ some
      obtain ⟨front, same⟩ := Search.mem_behind.mp marked
      exact ⟨front, rest, same⟩
  · constructor
    · intro all rest marked
      obtain ⟨front, same⟩ := Search.mem_behind.mp marked
      exact all front rest same
    · intro all front rest same
      exact all rest (Search.mem_behind.mpr ⟨front, same⟩)

/-- Two texts that end at the first NUL are the same. -/
theorem nul_unique {rest v w : List UInt8} (plain : 0 ∉ v) (otherPlain : 0 ∉ w)
    (carried : v ++ [0] <+: rest) (otherCarried : w ++ [0] <+: rest) : v = w := by
  obtain ⟨tail, rfl⟩ := carried
  obtain ⟨otherTail, same⟩ := otherCarried
  rw [List.append_assoc, List.append_assoc] at same
  exact (field_injective otherPlain plain same).1.symm

/-- The marker loop is exact but for what it takes an empty version for. -/
theorem exact_iff_not_blankFirst (image : List UInt8) :
    (∀ v, imageVersion image = .ok v ↔ Carries image v) ↔ ¬ BlankFirst image := by
  constructor
  · rintro exact ⟨v, accepted, blank, carrying, same, some, more, blanks, carried⟩
    have result := imageVersion_iff.mpr ⟨accepted, blank, carrying, same, more, blanks, carried⟩
    obtain ⟨-, -, all⟩ := carries_iff.mp ((exact v).mp result)
    obtain ⟨tail, first⟩ := List.exists_mem_of_ne_nil _ some
    have here := all tail (same ▸ List.mem_append_left _ first)
    have findable := findable_of_valid accepted
    exact findable.1 (nul_unique findable.2.1 List.not_mem_nil here (blanks tail first))
  · intro proper v
    rw [imageVersion_iff, carries_iff]
    refine and_congr_right fun accepted => ⟨?_, fun carried => ?_⟩
    · rintro ⟨blank, carrying, same, more, blanks, carried⟩
      have none : blank = [] := by
        by_contra some
        exact proper ⟨v, accepted, blank, carrying, same, some, more, blanks, carried⟩
      subst none
      rw [same]
      exact ⟨more, carried⟩
    · exact ⟨[], _, rfl, carried.1, nofun, carried.2⟩

/-- The order of the markers makes no difference to which version they all carry. -/
theorem carries_perm {image other v : List UInt8}
    (reordered : ((markers image).map nulTerminated).Perm ((markers other).map nulTerminated)) :
    Carries image v ↔ Carries other v := by
  rw [carries_iff, carries_iff]
  refine and_congr_right fun accepted => and_congr ?_ ?_
  · have counts := reordered.length_eq
    rw [List.length_map, List.length_map] at counts
    rw [← List.length_pos_iff, ← List.length_pos_iff, counts]
  · have read : ∀ images : List UInt8, (∀ tail ∈ markers images, v ++ [0] <+: tail) ↔
        ∀ text ∈ (markers images).map nulTerminated, text = some v := by
      intro images
      rw [List.forall_mem_map]
      exact forall₂_congr fun tail _ => (findable_of_valid accepted).nulTerminated.symm
    rw [read image, read other]
    exact ⟨fun all text there => all text (reordered.mem_iff.mpr there),
      fun all text there => all text (reordered.mem_iff.mp there)⟩

/-- Two markers that end in different versions. -/
def Disagreeing (image : List UInt8) : Prop :=
  ∃ v w front rest otherFront otherRest, 0 ∉ v ∧ 0 ∉ w ∧ v ≠ w ∧
    image = front ++ versionMarker ++ rest ∧ v ++ [0] <+: rest ∧
    image = otherFront ++ versionMarker ++ otherRest ∧ w ++ [0] <+: otherRest

theorem not_carries_of_disagreeing {image : List UInt8} (disagreeing : Disagreeing image)
    (version : List UInt8) : ¬ Carries image version := by
  rintro ⟨accepted, -, all⟩
  obtain ⟨v, w, front, rest, otherFront, otherRest, plain, otherPlain, different, here, carried,
    there, otherCarried⟩ := disagreeing
  have clean := (findable_of_valid accepted).2.1
  have first := nul_unique clean plain (all front rest here) carried
  have second := nul_unique clean otherPlain (all otherFront otherRest there) otherCarried
  exact different (first.symm.trans second)

/-! ## The empty marker -/

/-- An empty marker in front of one with a version. -/
def blankMarker : List UInt8 := versionMarker ++ 0 :: (versionMarker ++ ascii "0.2.0" ++ [0])

/-- It is signed under the version of its second marker, and refused the other way round. -/
theorem blank_marker_passed_over :
    imageVersion blankMarker = .ok (ascii "0.2.0") ∧ ¬ Carries blankMarker (ascii "0.2.0") ∧
      imageVersion (versionMarker ++ ascii "0.2.0" ++ 0 :: (versionMarker ++ [0])) =
        .error (.disagreeing (ascii "0.2.0") []) := by
  refine ⟨by decide +kernel, fun carried => ?_, by decide +kernel⟩
  have first := carried.2.2 [] _ rfl
  exact absurd first (by decide)

/-- When an image is signed under the one version that it carries. -/
theorem image_version_exact (image : List UInt8) :
    ((∀ v, imageVersion image = .ok v ↔ Carries image v) ↔ ¬ BlankFirst image) ∧
    (∀ other, ¬ BlankFirst image → ¬ BlankFirst other →
      ((markers image).map nulTerminated).Perm ((markers other).map nulTerminated) →
      ∀ v, imageVersion image = .ok v ↔ imageVersion other = .ok v) ∧
    (Disagreeing image → ((∀ v, imageVersion image ≠ .ok v) ↔ ¬ BlankFirst image)) := by
  refine ⟨exact_iff_not_blankFirst image, fun other proper otherProper reordered v => ?_,
    fun disagreeing => ⟨?_, fun proper v accepted => ?_⟩⟩
  · rw [(exact_iff_not_blankFirst image).mpr proper v,
      (exact_iff_not_blankFirst other).mpr otherProper v, carries_perm reordered]
  · rintro refused ⟨v, accepted, blank, carrying, same, -, more, blanks, carried⟩
    exact refused v
      (imageVersion_iff.mpr ⟨accepted, blank, carrying, same, more, blanks, carried⟩)
  · exact not_carries_of_disagreeing disagreeing v
      (((exact_iff_not_blankFirst image).mpr proper v).mp accepted)

theorem image_version_exact_sample : BlankFirst blankMarker := by
  by_contra proper
  have accepted : imageVersion blankMarker = .ok (ascii "0.2.0") := by decide +kernel
  have carries := ((image_version_exact blankMarker).1.mpr proper _).mp accepted
  have findable := findable_of_valid carries.1
  have blank := carries.2.2 [] _ rfl
  exact findable.1
    (nul_unique findable.2.1 List.not_mem_nil blank (List.prefix_append [0] _))

end Presence.Ota
