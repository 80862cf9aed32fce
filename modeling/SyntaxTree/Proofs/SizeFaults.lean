/-
# What a failed reading says

The sizes in a buffer are any words, at every level of nesting.  This file says for every buffer
what reading it comes to where they are wrong (`reading_faults_precise`):

* the reading ends, and nothing outside the buffer is touched on the way: with every slice, sum and
  difference checked it is the same reading;
* a buffer is too short exactly if it is shorter than a header, and only for the reading of one
  tree;
* a size that is reported is wrong as reported, against the bytes that were left in the data
  around the node (`DecodeError.Sound`);
* of several wrong sizes the first one in preorder is reported.

Preorder is the order of `Tree.sites`, which also lists the nodes behind the first wrong size.
Where no size is wrong it is the order of `Tree.preorder`.
-/
import SyntaxTree.Proofs.GuardedReading
import SyntaxTree.Proofs.NodeSites

namespace SyntaxTree

/-! ## 1. Faults that are right -/

/-- What a fault says of a buffer of some length: the numbers in it are as they must be for the
size to be wrong. -/
def DecodeError.Sound (length : Nat) : DecodeError → Prop
  | tooShort available => available = length ∧ length < Header.width
  | sizeTooSmall declared => declared < Header.width
  | sizeMismatch declared available =>
    Header.width ≤ declared ∧ Header.width ≤ available ∧ available ≤ length
      ∧ available < alignUp declared

/-- The fault of a site is right about the buffer around it. -/
theorem Frame.sound_of_fault? {site : List UInt8} {cause : DecodeError} {length : Nat}
    (hsite : Header.width ≤ site.length ∧ site.length ≤ length)
    (h : Frame.fault? site = some cause) :
    cause.Sound length ∧ ∀ available : Nat, cause ≠ .tooShort available := by
  simp only [Frame.fault?] at h
  split at h
  · rename_i hsmall
    obtain rfl := Option.some.inj h
    exact ⟨hsmall, fun _ => DecodeError.noConfusion⟩
  · split at h
    · cases h
    · rename_i hsmall hfit
      obtain rfl := Option.some.inj h
      exact ⟨⟨Nat.le_of_not_lt hsmall, hsite.1, hsite.2, Nat.lt_of_not_le hfit⟩,
        fun _ => DecodeError.noConfusion⟩

/-- A fault is that of the first site with a wrong size. -/
def FirstFault (sites : List (List UInt8)) (cause : DecodeError) : Prop :=
  ∃ before site after, sites = before ++ site :: after
    ∧ (∀ earlier ∈ before, Frame.fault? earlier = none) ∧ Frame.fault? site = some cause

theorem firstFault_iff {sites : List (List UInt8)} {cause : DecodeError} :
    FirstFault sites cause ↔ sites.findSome? Frame.fault? = some cause := by
  rw [List.findSome?_eq_some_iff]
  constructor
  · rintro ⟨before, site, after, hsites, hbefore, hsite⟩
    exact ⟨before, site, after, hsites, hsite, hbefore⟩
  · rintro ⟨before, site, after, hsites, hsite, hbefore⟩
    exact ⟨before, site, after, hsites, hbefore, hsite⟩

/-- What the first fault among the sites of a buffer is right about. -/
theorem FirstFault.sound {sites : List (List UInt8)} {cause : DecodeError} {length : Nat}
    (hsites : ∀ site ∈ sites, Header.width ≤ site.length ∧ site.length ≤ length)
    (h : FirstFault sites cause) :
    cause.Sound length ∧ ∀ available : Nat, cause ≠ .tooShort available := by
  obtain ⟨before, site, after, rfl, -, hsite⟩ := h
  exact Frame.sound_of_fault? (hsites site (by simp)) hsite

/-! ## 2. The two readings -/

namespace Tree

theorem decodeAll_eq_error_iff {buffer : List UInt8} {cause : DecodeError} :
    (decodeAll buffer).result = .error cause ↔ FirstFault (sites buffer) cause := by
  rw [← Outcome.error?_eq_some, error?_decodeAll, firstFault_iff]

theorem decode_eq_error_iff {buffer : List UInt8} (hwidth : Header.width ≤ buffer.length)
    {cause : DecodeError} :
    (decode buffer).result = .error cause ↔ FirstFault (sitesOfFirst buffer) cause := by
  rw [← Outcome.error?_eq_some, error?_decode hwidth, firstFault_iff]

theorem sound_of_decodeAll {buffer : List UInt8} {cause : DecodeError}
    (h : (decodeAll buffer).result = .error cause) :
    cause.Sound buffer.length ∧ ∀ available : Nat, cause ≠ .tooShort available :=
  (decodeAll_eq_error_iff.1 h).sound fun _ hsite => length_of_mem_sites hsite

theorem sound_of_decode {buffer : List UInt8} {cause : DecodeError}
    (h : (decode buffer).result = .error cause) : cause.Sound buffer.length := by
  by_cases hwidth : Header.width ≤ buffer.length
  · exact (((decode_eq_error_iff hwidth).1 h).sound
      fun _ hsite => length_of_mem_sitesOfFirst hwidth hsite).1
  · have hlt := Nat.lt_of_not_le hwidth
    rw [← Outcome.error?_eq_some, error?_decode_of_lt hlt] at h
    obtain rfl := Option.some.inj h
    exact ⟨rfl, hlt⟩

/-- **A failed reading is right about what failed, and no reading leaves its buffer.**  For a
buffer that fits in memory:

* the readings with every index checked, given more turns than there are bytes, are the plain ones;
* only a buffer shorter than a header is too short, with its length, and only for one tree;
* the numbers in a fault are as they must be for the size to be wrong;
* the fault is that of the first wrong size in preorder, for one tree and for all of them, where
  preorder is the order of the nodes in the trees that are read if no size is wrong. -/
theorem reading_faults_precise (buffer : List UInt8) (hshort : buffer.length < 2 ^ 63) :
    (∀ turns : Nat, buffer.length < turns →
      Guarded.decode turns buffer = (decode buffer).mapError .fault
        ∧ Guarded.decodeAll turns buffer = (decodeAll buffer).mapError .fault)
      ∧ (∀ available : Nat, (decode buffer).result = .error (.tooShort available)
          ↔ buffer.length < Header.width ∧ available = buffer.length)
      ∧ (∀ available : Nat, (decodeAll buffer).result ≠ .error (.tooShort available))
      ∧ (∀ cause : DecodeError,
          (decode buffer).result = .error cause ∨ (decodeAll buffer).result = .error cause →
            cause.Sound buffer.length)
      ∧ (Header.width ≤ buffer.length → ∀ cause : DecodeError,
          (decode buffer).result = .error cause ↔ FirstFault (sitesOfFirst buffer) cause)
      ∧ (∀ cause : DecodeError,
          (decodeAll buffer).result = .error cause ↔ FirstFault (sites buffer) cause)
      ∧ (∀ (tree : Tree) (used : Nat), (decode buffer).result = .ok (tree, used) →
          (tree.preorder.map Prod.fst).map header = (sitesOfFirst buffer).map Header.read)
      ∧ (∀ trees : List Tree, (decodeAll buffer).result = .ok trees →
          (trees.flatMap fun tree => tree.preorder.map Prod.fst).map header
            = (sites buffer).map Header.read) := by
  refine ⟨?_, ?_, ?_, ?_, ?_, ?_, ?_, ?_⟩
  · intro turns hturns
    exact ⟨Guarded.decode_eq hshort (Nat.le_of_lt hturns), Guarded.decodeAll_eq hshort hturns⟩
  · intro available
    constructor
    · intro h
      obtain ⟨havailable, hlt⟩ := sound_of_decode h
      exact ⟨hlt, havailable⟩
    · rintro ⟨hlt, rfl⟩
      exact Outcome.error?_eq_some.1 (error?_decode_of_lt hlt)
  · intro available h
    exact (sound_of_decodeAll h).2 available rfl
  · rintro cause (h | h)
    · exact sound_of_decode h
    · exact (sound_of_decodeAll h).1
  · intro hwidth cause
    exact decode_eq_error_iff hwidth
  · intro cause
    exact decodeAll_eq_error_iff
  · intro tree used h
    rw [map_fst_preorder, headers_of_decode h]
  · intro trees h
    simp only [map_fst_preorder, ← nodesAll_eq_flatMap]
    exact headers_of_reads (reads_of_decodeAll h)

/-- A branch of two nodes: a branch whose one node declares all that a word can hold, and a leaf
whose size is zero. -/
def illSizedBuffer : List UInt8 :=
  Header.encode ⟨.blank, 128, .unknown, Kind.branch.code⟩
    ++ (Header.encode ⟨.blank, 64, .unknown, Kind.branch.code⟩
      ++ Header.encode ⟨.blank, 18446744073709551615, .unknown, Kind.leaf.code⟩
      ++ Header.encode ⟨.blank, 0, .unknown, Kind.leaf.code⟩)

theorem reading_faults_precise_illSized :
    illSizedBuffer.length < 2 ^ 63
      ∧ (decode illSizedBuffer).result = .error (.sizeMismatch 18446744073709551615 32)
      ∧ Guarded.decode 129 illSizedBuffer = (decode illSizedBuffer).mapError .fault
      ∧ Frame.fault? (illSizedBuffer.drop 96) = some (.sizeTooSmall 0) := by
  have hlength : illSizedBuffer.length = 128 := by decide +kernel
  have hshort : illSizedBuffer.length < 2 ^ 63 := by omega
  obtain ⟨hguarded, -, -, -, hfirst, -⟩ := reading_faults_precise illSizedBuffer hshort
  have hfault : FirstFault (sitesOfFirst illSizedBuffer)
      (.sizeMismatch 18446744073709551615 32) := by
    refine ⟨[illSizedBuffer, illSizedBuffer.drop 32], (illSizedBuffer.drop 64).take 32,
      [illSizedBuffer.drop 96], ?_, ?_, ?_⟩
    · decide +kernel
    · decide +kernel
    · decide +kernel
  refine ⟨hshort, (hfirst ?_ _).2 hfault, (hguarded 129 (by omega)).1, by decide +kernel⟩
  rw [hlength]
  decide

end Tree
end SyntaxTree
