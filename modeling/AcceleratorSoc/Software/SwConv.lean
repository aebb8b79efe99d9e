import Mathlib.Algebra.Order.Ring.Int
import Mathlib.Tactic.Ring
import AcceleratorSoc.Clocked.Loop
import AcceleratorSoc.Clocked.Sweep

/-!
# The software convolution

{lit}`swConv` of the notebook {lit}`MNIST.ipynb`, over exact arithmetic.  The kernel
index {lit}`kx` and the stride {lit}`Sx` run along the height of the map, but the map
is padded along its height by half of {lit}`Ky` and along its width by half of
{lit}`Kx`.

Main results:

- Theorem {lit}`call_eq_some` and {lit}`call_eq_none`: when all indices lie inside the
  padded map, and what the function then computes.
- Theorem {lit}`swConv_correct_iff`: the function is the padded convolution exactly for
  square kernels.
-/

namespace AcceleratorSoc
namespace Software

open Clocked

variable {K : Type*}

/-! ## Arrays -/

/-- An array of shape {lit}`(height, width, channels)`; entries outside the shape mean
nothing. -/
structure FeatureMap (K : Type*) where
  height : Nat
  width : Nat
  channels : Nat
  data : Nat × Nat × Nat → K

/-- An array of shape {lit}`(Kx, Ky, C_in, C_out)`. -/
structure Kernel (K : Type*) where
  kx : Nat
  ky : Nat
  cIn : Nat
  cOut : Nat
  data : Nat → Nat → Nat → Nat → K

/-- An array of shape {lit}`(C_out,)`. -/
structure Bias (K : Type*) where
  size : Nat
  data : Nat → K

/-- Reading an entry; {lit}`none` is the {lit}`IndexError` of NumPy. -/
def FeatureMap.get? (m : FeatureMap K) (i j c : Nat) : Option K :=
  if i < m.height ∧ j < m.width ∧ c < m.channels then some (m.data (i, j, c)) else none

/-- An index out of range raises. -/
def Kernel.get? (a : Kernel K) (kx ky c n : Nat) : Option K :=
  if kx < a.kx ∧ ky < a.ky ∧ c < a.cIn ∧ n < a.cOut then some (a.data kx ky c n) else none

/-- So does one here. -/
def Bias.get? (b : Bias K) (n : Nat) : Option K :=
  if n < b.size then some (b.data n) else none

/-- Writing an entry. -/
def FeatureMap.set? (m : FeatureMap K) (x : Nat × Nat × Nat) (v : K) : Option (FeatureMap K) :=
  if x.1 < m.height ∧ x.2.1 < m.width ∧ x.2.2 < m.channels then
    some { m with data := Function.update m.data x v }
  else none

section Definitions

variable [Zero K]

/-- {lit}`np.pad` with zeros around the first two axes; {lit}`none` is its
{lit}`ValueError`. -/
def FeatureMap.pad (m : FeatureMap K) (padH padW : Int) : Option (FeatureMap K) :=
  if padH < 0 ∨ padW < 0 then none
  else some
    { height := m.height + 2 * padH.toNat
      width := m.width + 2 * padW.toNat
      channels := m.channels
      data := fun x =>
        if (padH ≤ x.1 ∧ x.1 < padH + m.height) ∧ padW ≤ x.2.1 ∧ x.2.1 < padW + m.width then
          m.data (x.1 - padH.toNat, x.2.1 - padW.toNat, x.2.2)
        else 0 }

/-! ## The function -/

variable [Add K] [Mul K]

/-- The three innermost loops. -/
def windowSum (Kx Ky Sx Sy cIn : Nat) (W : Kernel K) (featInPadded : FeatureMap K)
    (n h w : Nat) : Option K :=
  (List.range cIn).foldlM
    (fun (sum : K) (c : Nat) =>
      (List.range Ky).foldlM
        (fun (sum : K) (ky : Nat) =>
          (List.range Kx).foldlM
            (fun (sum : K) (kx : Nat) => do
              let a ← W.get? kx ky c n
              let x ← featInPadded.get? (h * Sx + kx) (w * Sy + ky) c
              return sum + a * x) sum) sum) 0

/-- The value of one output entry. -/
def convEntry [Max K] (Kx Ky Sx Sy cIn : Nat) (reluEn : Bool) (W : Kernel K) (bias : Bias K)
    (featInPadded : FeatureMap K) (n h w : Nat) : Option K := do
  let sum ← windowSum Kx Ky Sx Sy cIn W featInPadded n h w
  let b ← bias.get? n
  return if reluEn then max 0 (sum + b) else sum + b

/-- {lit}`swConv`. -/
def swConv [Max K] (Kx Ky Sx Sy : Nat) (mode : Int) (reluEn : Bool) (featIn : FeatureMap K)
    (W : Kernel K) (bias : Bias K) (featOut : FeatureMap K) : Option (FeatureMap K) := do
  let featInPadded ←
    if mode = 1 then
      let padH := ((Ky : Int) - 1) / 2
      let padW := ((Kx : Int) - 1) / 2
      featIn.pad padH padW
    else some featIn
  (List.range W.cOut).foldlM
    (fun out (n : Nat) =>
      (List.range featOut.height).foldlM
        (fun out (h : Nat) =>
          (List.range featOut.width).foldlM
            (fun out (w : Nat) => do
              let sum ← convEntry Kx Ky Sx Sy featIn.channels reluEn W bias featInPadded n h w
              out.set? (h, w, n) sum) out) out) featOut

end Definitions

/-! ## Padding -/

/-- A map extended by zero, at possibly negative coordinates. -/
def FeatureMap.zeroExtended [Zero K] (m : FeatureMap K) (i j : Int) (c : Nat) : K :=
  if (0 ≤ i ∧ i < m.height) ∧ 0 ≤ j ∧ j < m.width then m.data (i.toNat, j.toNat, c) else 0

/-- The padded map is the extended map with its origin moved. -/
theorem pad_eq [Zero K] (m : FeatureMap K) (padH padW : Nat) :
    m.pad padH padW = some
      { height := m.height + 2 * padH
        width := m.width + 2 * padW
        channels := m.channels
        data := fun x => m.zeroExtended (x.1 - padH) (x.2.1 - padW) x.2.2 } := by
  rw [FeatureMap.pad, if_neg (by omega)]
  congr 2
  funext x
  rw [FeatureMap.zeroExtended]
  by_cases hin : ((padH : Int) ≤ x.1 ∧ x.1 < (padH : Int) + m.height) ∧
      (padW : Int) ≤ x.2.1 ∧ x.2.1 < (padW : Int) + m.width
  · have hrow : ((x.1 : Int) - padH).toNat = x.1 - padH := by omega
    have hcol : ((x.2.1 : Int) - padW).toNat = x.2.1 - padW := by omega
    rw [if_pos hin, if_pos (by omega), hrow, hcol]
    rfl
  · rw [if_neg hin, if_neg (by omega)]

/-! ## Loops -/

section Loops

variable [CommRing K] {Kx Ky Sx Sy n h w : Nat} {W : Kernel K} {m : FeatureMap K}

/-- The window at an output entry lies inside the map. -/
def Covers (Kx Ky Sx Sy : Nat) (m : FeatureMap K) (h w : Nat) : Prop :=
  (∀ kx < Kx, h * Sx + kx < m.height) ∧ ∀ ky < Ky, w * Sy + ky < m.width

/-- The three innermost loops over a window inside the map. -/
theorem windowSum_eq_some (hcovers : Covers Kx Ky Sx Sy m h w) (hkx : W.kx = Kx)
    (hky : W.ky = Ky) (hcIn : W.cIn = m.channels) (hn : n < W.cOut) :
    windowSum Kx Ky Sx Sy m.channels W m n h w =
      some (∑ c ∈ Finset.range m.channels, ∑ ky ∈ Finset.range Ky, ∑ kx ∈ Finset.range Kx,
        W.data kx ky c n * m.data (h * Sx + kx, w * Sy + ky, c)) := by
  rw [windowSum, Loop.foldlM_add_range
    (f := fun (c : Nat) => ∑ ky ∈ Finset.range Ky, ∑ kx ∈ Finset.range Kx,
      W.data kx ky c n * m.data (h * Sx + kx, w * Sy + ky, c)), zero_add]
  intro c hc sum
  refine Loop.foldlM_add_range (f := fun (ky : Nat) => ∑ kx ∈ Finset.range Kx,
    W.data kx ky c n * m.data (h * Sx + kx, w * Sy + ky, c)) ?_ sum
  intro ky hky' sum
  refine Loop.foldlM_add_range (f := fun (kx : Nat) =>
    W.data kx ky c n * m.data (h * Sx + kx, w * Sy + ky, c)) ?_ sum
  intro kx hkx' sum
  have hweight : W.get? kx ky c n = some (W.data kx ky c n) := by
    rw [Kernel.get?, if_pos ⟨hkx ▸ hkx', hky ▸ hky', hcIn ▸ hc, hn⟩]
  have hvalue : m.get? (h * Sx + kx) (w * Sy + ky) c =
      some (m.data (h * Sx + kx, w * Sy + ky, c)) := by
    rw [FeatureMap.get?, if_pos ⟨hcovers.1 kx hkx', hcovers.2 ky hky', hc⟩]
  rw [hweight, hvalue]
  rfl

/-- The three innermost loops over a window that leaves the map. -/
theorem windowSum_eq_none (hcovers : ¬ Covers Kx Ky Sx Sy m h w) (hkx : 0 < Kx) (hky : 0 < Ky)
    (hchannels : 0 < m.channels) (n : Nat) :
    windowSum Kx Ky Sx Sy m.channels W m n h w = none := by
  have hbad : ∃ kx < Kx, ∃ ky < Ky, ∀ c, m.get? (h * Sx + kx) (w * Sy + ky) c = none := by
    rw [Covers, not_and_or] at hcovers
    push Not at hcovers
    rcases hcovers with ⟨kx, hlt, hout⟩ | ⟨ky, hlt, hout⟩
    · refine ⟨kx, hlt, 0, hky, ?_⟩
      intro c
      exact if_neg fun hin => absurd hin.1 (not_lt.mpr hout)
    · refine ⟨0, hkx, ky, hlt, ?_⟩
      intro c
      exact if_neg fun hin => absurd hin.2.1 (not_lt.mpr hout)
  rcases hbad with ⟨kx, hkxlt, ky, hkylt, hraise⟩
  refine Loop.foldlM_eq_none (List.mem_range.mpr hchannels) ?_ _
  intro sum
  refine Loop.foldlM_eq_none (List.mem_range.mpr hkylt) ?_ _
  intro sum
  refine Loop.foldlM_eq_none (List.mem_range.mpr hkxlt) ?_ _
  intro sum
  rw [hraise]
  cases W.get? kx ky 0 n <;> rfl

end Loops

/-- The output entries in the order of the three outer loops. -/
def outputOrder (cOut hOut wOut : Nat) : List (Nat × Nat × Nat) :=
  (List.range cOut).flatMap fun (n : Nat) =>
    (List.range hOut).flatMap fun (h : Nat) =>
      (List.range wOut).map fun (w : Nat) => (h, w, n)

/-- The loops visit every place of the output. -/
theorem mem_outputOrder {cOut hOut wOut : Nat} (x : Nat × Nat × Nat) :
    x ∈ outputOrder cOut hOut wOut ↔ x.1 < hOut ∧ x.2.1 < wOut ∧ x.2.2 < cOut := by
  simp only [outputOrder, List.mem_flatMap, List.mem_map, List.mem_range]
  constructor
  · rintro ⟨n, hn, h, hh, w, hw, rfl⟩
    exact ⟨hh, hw, hn⟩
  · rintro ⟨hh, hw, hn⟩
    exact ⟨x.2.2, hn, x.1, hh, x.2.1, hw, rfl⟩

/-- A loop over the output entries that computes and writes each. -/
def writeAll (entry : Nat × Nat × Nat → Option K) (order : List (Nat × Nat × Nat))
    (out : FeatureMap K) : Option (FeatureMap K) :=
  order.foldlM (fun out (x : Nat × Nat × Nat) => do
    let v ← entry x
    out.set? x v) out

/-- The outer loops write every entry once. -/
theorem writeAll_eq_some {entry : Nat × Nat × Nat → Option K} {value : Nat × Nat × Nat → K}
    (out : FeatureMap K)
    (hentry : ∀ x ∈ outputOrder out.channels out.height out.width, entry x = some (value x)) :
    ∃ res, writeAll entry (outputOrder out.channels out.height out.width) out = some res ∧
      (res.height = out.height ∧ res.width = out.width ∧ res.channels = out.channels) ∧
      ∀ x ∈ outputOrder out.channels out.height out.width, res.data x = value x := by
  let next : FeatureMap K → Nat × Nat × Nat → FeatureMap K :=
    fun m x => { m with data := Function.update m.data x (value x) }
  let P : FeatureMap K → Prop :=
    fun m => m.height = out.height ∧ m.width = out.width ∧ m.channels = out.channels
  have hrun : writeAll entry (outputOrder out.channels out.height out.width) out =
      some ((outputOrder out.channels out.height out.width).foldl next out) ∧
        P ((outputOrder out.channels out.height out.width).foldl next out) := by
    refine Loop.foldlM_eq_some next P ?_ ⟨rfl, rfl, rfl⟩
    rintro x hx m ⟨hheight, hwidth, hchannels⟩
    refine ⟨?_, hheight, hwidth, hchannels⟩
    have hin := (mem_outputOrder x).mp hx
    rw [hentry x hx]
    exact if_pos ⟨hheight ▸ hin.1, hwidth ▸ hin.2.1, hchannels ▸ hin.2.2⟩
  refine ⟨_, hrun.1, hrun.2, ?_⟩
  intro x hx
  have hdata : ∀ (l : List (Nat × Nat × Nat)) (m : FeatureMap K), (l.foldl next m).data =
      l.foldl (fun data (y : Nat × Nat × Nat) => Function.update data y (value y)) m.data :=
    fun l m => (List.foldl_hom FeatureMap.data fun _ _ => rfl).symm
  rw [hdata]
  exact Sweep.foldl_update_get (w := id) (v := value) hx (fun y _ heq => congrArg value heq) _

/-! ## Calls with padding -/

/-- The sizes of a call: odd kernels and positive strides and dimensions. -/
structure ConvShape where
  kx : Nat
  ky : Nat
  sx : Nat
  sy : Nat
  hIn : Nat
  wIn : Nat
  cIn : Nat
  cOut : Nat
  kx_odd : kx % 2 = 1 := by decide
  ky_odd : ky % 2 = 1 := by decide
  sx_pos : 0 < sx := by decide
  sy_pos : 0 < sy := by decide
  hIn_pos : 0 < hIn := by decide
  wIn_pos : 0 < wIn := by decide
  cIn_pos : 0 < cIn := by decide
  cOut_pos : 0 < cOut := by decide

/-- The contents of the arrays of a call, and its activation flag. -/
structure ConvData (K : Type*) where
  feat : Nat × Nat × Nat → K
  weight : Nat → Nat → Nat → Nat → K
  bias : Nat → K
  out : Nat × Nat × Nat → K
  reluEn : Bool

namespace ConvShape

/-- The output size for a padding of half the kernel on each axis. -/
def hOut (s : ConvShape) : Nat :=
  (s.hIn - 1) / s.sx + 1

/-- Columns of the output. -/
def wOut (s : ConvShape) : Nat :=
  (s.wIn - 1) / s.sy + 1

/-- The input map. -/
def featIn (s : ConvShape) (d : ConvData K) : FeatureMap K where
  height := s.hIn
  width := s.wIn
  channels := s.cIn
  data := d.feat

/-- The kernel. -/
def weights (s : ConvShape) (d : ConvData K) : Kernel K where
  kx := s.kx
  ky := s.ky
  cIn := s.cIn
  cOut := s.cOut
  data := d.weight

/-- The bias. -/
def biases (s : ConvShape) (d : ConvData K) : Bias K where
  size := s.cOut
  data := d.bias

/-- The map that the convolution returns. -/
def featOut (s : ConvShape) (d : ConvData K) : FeatureMap K where
  height := s.hOut
  width := s.wOut
  channels := s.cOut
  data := d.out

/-- The rows and columns that the strides leave over make up for the padding that
belongs to the other axis. -/
def Fits (s : ConvShape) : Prop :=
  s.kx ≤ s.ky + (s.hIn - 1) % s.sx ∧ s.ky ≤ s.kx + (s.wIn - 1) % s.sy

variable [CommRing K]

/-- The map after padding by the halves of the wrong kernel sizes. -/
def padded (s : ConvShape) (d : ConvData K) : FeatureMap K where
  height := s.hIn + 2 * ((s.ky - 1) / 2)
  width := s.wIn + 2 * ((s.kx - 1) / 2)
  channels := s.cIn
  data := fun x => (s.featIn d).zeroExtended (x.1 - ((s.ky - 1) / 2 : Nat))
    (x.2.1 - ((s.kx - 1) / 2 : Nat)) x.2.2

/-- On one axis all windows of length {lit}`k` lie inside a map that is padded for
windows of length {lit}`l` when the stride leaves enough over. -/
theorem reaches_iff (stride : Nat) {k l size : Nat} (hk : 0 < k) (hl : l % 2 = 1) (hsize : 0 < size) :
    (∀ h < (size - 1) / stride + 1, ∀ j < k, h * stride + j < size + 2 * ((l - 1) / 2)) ↔
      k ≤ l + (size - 1) % stride := by
  have hdivmod : (size - 1) / stride * stride + (size - 1) % stride = size - 1 :=
    Nat.div_add_mod' _ _
  constructor
  · intro h
    have hlast := h ((size - 1) / stride) (Nat.lt_succ_self _) (k - 1) (by omega)
    omega
  · intro h r hr j hj
    have hrow : r * stride ≤ (size - 1) / stride * stride :=
      Nat.mul_le_mul_right stride (Nat.le_of_lt_succ hr)
    omega

/-- All windows lie inside the padded map when the shape fits. -/
theorem covers_iff (s : ConvShape) (d : ConvData K) :
    (∀ h < s.hOut, ∀ w < s.wOut, Covers s.kx s.ky s.sx s.sy (s.padded d) h w) ↔ s.Fits := by
  have hkx := s.kx_odd
  have hky := s.ky_odd
  have hrows := reaches_iff s.sx (by omega : 0 < s.kx) hky s.hIn_pos
  have hcols := reaches_iff s.sy (by omega : 0 < s.ky) hkx s.wIn_pos
  rw [Fits, ← hrows, ← hcols]
  constructor
  · intro h
    exact ⟨fun r hr => (h r hr 0 (Nat.succ_pos _)).1, fun r hr => (h 0 (Nat.succ_pos _) r hr).2⟩
  · rintro ⟨hrow, hcol⟩ h hh w hw
    exact ⟨hrow h hh, hcol w hw⟩

/-- The order in which a triple sum is formed does not matter. -/
private theorem sum_reverse (f : Nat → Nat → Nat → K) (a b c : Nat) :
    ∑ i ∈ Finset.range a, ∑ j ∈ Finset.range b, ∑ k ∈ Finset.range c, f i j k =
      ∑ k ∈ Finset.range c, ∑ j ∈ Finset.range b, ∑ i ∈ Finset.range a, f i j k := by
  calc
    _ = ∑ i ∈ Finset.range a, ∑ k ∈ Finset.range c, ∑ j ∈ Finset.range b, f i j k :=
      Finset.sum_congr rfl fun i _ => Finset.sum_comm
    _ = ∑ k ∈ Finset.range c, ∑ i ∈ Finset.range a, ∑ j ∈ Finset.range b, f i j k :=
      Finset.sum_comm
    _ = _ := Finset.sum_congr rfl fun k _ => Finset.sum_comm

/-! ## What a call computes -/

variable [LinearOrder K]

/-- {lit}`swConv` with padding. -/
def call (s : ConvShape) (d : ConvData K) : Option (FeatureMap K) :=
  swConv s.kx s.ky s.sx s.sy 1 d.reluEn (s.featIn d) (s.weights d) (s.biases d) (s.featOut d)

/-- The convolution at one entry, with {lit}`above` rows and {lit}`left` columns of the
window before the entry's own cell. -/
def convolution (s : ConvShape) (d : ConvData K) (above left : Nat) (h w n : Nat) : K :=
  let sum := d.bias n + ∑ kx ∈ Finset.range s.kx, ∑ ky ∈ Finset.range s.ky,
    ∑ c ∈ Finset.range s.cIn, d.weight kx ky c n *
      (s.featIn d).zeroExtended ((h : Int) * s.sx + kx - above) ((w : Int) * s.sy + ky - left) c
  if d.reluEn then max 0 sum else sum

/-- The call is the padded convolution: it runs through, so that all indices lie inside
the padded map, and every entry has its window centred on it. -/
def ComputesConvolution (s : ConvShape) (d : ConvData K) : Prop :=
  ∃ res, s.call d = some res ∧
    (res.height = s.hOut ∧ res.width = s.wOut ∧ res.channels = s.cOut) ∧
    ∀ h < s.hOut, ∀ w < s.wOut, ∀ n < s.cOut,
      res.data (h, w, n) = s.convolution d ((s.kx - 1) / 2) ((s.ky - 1) / 2) h w n

/-- The call as one loop over the output entries. -/
theorem call_eq_writeAll (s : ConvShape) (d : ConvData K) :
    s.call d = writeAll (fun x => convEntry s.kx s.ky s.sx s.sy s.cIn d.reluEn (s.weights d)
      (s.biases d) (s.padded d) x.2.2 x.1 x.2.1) (outputOrder s.cOut s.hOut s.wOut)
        (s.featOut d) := by
  have hkx := s.kx_odd
  have hky := s.ky_odd
  have hpadH : ((s.ky : Int) - 1) / 2 = ((s.ky - 1) / 2 : Nat) := by omega
  have hpadW : ((s.kx : Int) - 1) / 2 = ((s.kx - 1) / 2 : Nat) := by omega
  have hpad : (s.featIn d).pad (((s.ky : Int) - 1) / 2) (((s.kx : Int) - 1) / 2) =
      some (s.padded d) := by
    rw [hpadH, hpadW, pad_eq]
    rfl
  simp only [call, swConv, if_true, hpad, Option.bind_eq_bind, Option.bind_some, writeAll,
    outputOrder, ← Loop.foldlM_flatMap, List.foldlM_map]
  rfl

/-- An entry whose window lies inside the padded map is the convolution with the
window placed by the wrong halves. -/
theorem convEntry_eq_some (s : ConvShape) (d : ConvData K) {h w n : Nat}
    (hcovers : Covers s.kx s.ky s.sx s.sy (s.padded d) h w) (hn : n < s.cOut) :
    convEntry s.kx s.ky s.sx s.sy s.cIn d.reluEn (s.weights d) (s.biases d) (s.padded d) n h w =
      some (s.convolution d ((s.ky - 1) / 2) ((s.kx - 1) / 2) h w n) := by
  have hwindow := windowSum_eq_some (W := s.weights d) hcovers rfl rfl rfl hn
  rw [sum_reverse] at hwindow
  have hbias : (s.biases d).get? n = some (d.bias n) := if_pos hn
  have hcell : ∀ kx ky c, (s.padded d).data (h * s.sx + kx, w * s.sy + ky, c) =
      (s.featIn d).zeroExtended ((h : Int) * s.sx + kx - ((s.ky - 1) / 2 : Nat))
        ((w : Int) * s.sy + ky - ((s.kx - 1) / 2 : Nat)) c := by
    intro kx ky c
    simp only [padded]
    push_cast
    rfl
  simp only [hcell] at hwindow
  have hchannels : (s.padded d).channels = s.cIn := rfl
  rw [hchannels] at hwindow
  rw [convEntry, hwindow, hbias, convolution]
  simp only [Option.bind_eq_bind, Option.bind_some, add_comm (d.bias n)]
  rfl

/-- A call that fits runs through, with its windows placed by the wrong halves. -/
theorem call_eq_some (s : ConvShape) (d : ConvData K) (hfits : s.Fits) :
    ∃ res, s.call d = some res ∧
      (res.height = s.hOut ∧ res.width = s.wOut ∧ res.channels = s.cOut) ∧
      ∀ h < s.hOut, ∀ w < s.wOut, ∀ n < s.cOut,
        res.data (h, w, n) = s.convolution d ((s.ky - 1) / 2) ((s.kx - 1) / 2) h w n := by
  have hcovers := (s.covers_iff d).mpr hfits
  have hentry : ∀ x ∈ outputOrder s.cOut s.hOut s.wOut,
      convEntry s.kx s.ky s.sx s.sy s.cIn d.reluEn (s.weights d) (s.biases d) (s.padded d)
        x.2.2 x.1 x.2.1 =
          some (s.convolution d ((s.ky - 1) / 2) ((s.kx - 1) / 2) x.1 x.2.1 x.2.2) := by
    intro x hx
    rcases (mem_outputOrder x).mp hx with ⟨hh, hw, hn⟩
    exact s.convEntry_eq_some d (hcovers x.1 hh x.2.1 hw) hn
  rcases writeAll_eq_some (s.featOut d) hentry with ⟨res, hres, hshape, hdata⟩
  refine ⟨res, ?_, hshape, ?_⟩
  · rw [call_eq_writeAll]
    exact hres
  · intro h hh w hw n hn
    exact hdata (h, w, n) ((mem_outputOrder _).mpr ⟨hh, hw, hn⟩)

/-- A call that does not fit ends with an {lit}`IndexError`. -/
theorem call_eq_none (s : ConvShape) (d : ConvData K) (hfits : ¬ s.Fits) : s.call d = none := by
  rw [← s.covers_iff d] at hfits
  push Not at hfits
  rcases hfits with ⟨h, hh, w, hw, hout⟩
  have hkx := s.kx_odd
  have hky := s.ky_odd
  rw [call_eq_writeAll, writeAll]
  refine Loop.foldlM_eq_none
    ((mem_outputOrder (h, w, 0)).mpr ⟨hh, hw, s.cOut_pos⟩) ?_ _
  intro out
  have hwindow := windowSum_eq_none (W := s.weights d) hout (by omega) (by omega) s.cIn_pos 0
  have hchannels : (s.padded d).channels = s.cIn := rfl
  rw [hchannels] at hwindow
  rw [convEntry, hwindow]
  rfl

/-! ## Square kernels -/

/-- A call computes the convolution when it fits and the misplaced windows give the
same sums. -/
theorem computesConvolution_iff (s : ConvShape) (d : ConvData K) :
    s.ComputesConvolution d ↔ s.Fits ∧ ∀ h < s.hOut, ∀ w < s.wOut, ∀ n < s.cOut,
      s.convolution d ((s.ky - 1) / 2) ((s.kx - 1) / 2) h w n =
        s.convolution d ((s.kx - 1) / 2) ((s.ky - 1) / 2) h w n := by
  by_cases hfits : s.Fits
  · rcases s.call_eq_some d hfits with ⟨res, hres, hshape, hdata⟩
    constructor
    · rintro ⟨res', hres', _, hdata'⟩
      rw [hres, Option.some_inj] at hres'
      refine ⟨hfits, ?_⟩
      intro h hh w hw n hn
      rw [← hdata h hh w hw n hn, hres', hdata' h hh w hw n hn]
    · rintro ⟨_, hsame⟩
      refine ⟨res, hres, hshape, ?_⟩
      intro h hh w hw n hn
      rw [hdata h hh w hw n hn, hsame h hh w hw n hn]
  · constructor
    · rintro ⟨res, hres, _⟩
      rw [s.call_eq_none d hfits] at hres
      exact absurd hres (by simp)
    · exact fun h => absurd h.1 hfits

/-- One weight in the middle of the kernel and one feature in the corner of the map. -/
def corner (K : Type*) [Zero K] [One K] (s : ConvShape) : ConvData K where
  feat := fun x => if x = (0, 0, 0) then 1 else 0
  weight := fun kx ky c n =>
    if kx = (s.kx - 1) / 2 ∧ ky = (s.ky - 1) / 2 ∧ c = 0 ∧ n = 0 then 1 else 0
  bias := fun _ => 0
  out := fun _ => 0
  reluEn := false

/-- The first entry then reads the cell below the middle of the kernel. -/
theorem convolution_corner (s : ConvShape) (above left : Nat) :
    s.convolution (corner K s) above left 0 0 0 =
      (s.featIn (corner K s)).zeroExtended (((s.kx - 1) / 2 : Nat) - above)
        (((s.ky - 1) / 2 : Nat) - left) 0 := by
  have hkx := s.kx_odd
  have hky := s.ky_odd
  have hmidX : (s.kx - 1) / 2 ∈ Finset.range s.kx := Finset.mem_range.mpr (by omega)
  have hmidY : (s.ky - 1) / 2 ∈ Finset.range s.ky := Finset.mem_range.mpr (by omega)
  have hfirst : 0 ∈ Finset.range s.cIn := Finset.mem_range.mpr s.cIn_pos
  simp only [convolution, corner]
  rw [Finset.sum_eq_single_of_mem _ hmidX, Finset.sum_eq_single_of_mem _ hmidY,
    Finset.sum_eq_single_of_mem _ hfirst]
  · simp
  · intro c _ hc
    simp [hc]
  · intro ky _ hky
    simp [hky]
  · intro kx _ hkx
    simp [hkx]

/-- The centred window of the first entry reads the corner. -/
theorem convolution_corner_centred (s : ConvShape) :
    s.convolution (corner K s) ((s.kx - 1) / 2) ((s.ky - 1) / 2) 0 0 0 = 1 := by
  have hrow := s.hIn_pos
  have hcol := s.wIn_pos
  rw [convolution_corner, FeatureMap.zeroExtended, if_pos]
  · simp [featIn, corner]
  · simp only [featIn]
    omega

/-- With a kernel that is not square the misplaced window reads outside the map. -/
theorem convolution_corner_misplaced (s : ConvShape) (hne : s.kx ≠ s.ky) :
    s.convolution (corner K s) ((s.ky - 1) / 2) ((s.kx - 1) / 2) 0 0 0 = 0 := by
  have hkx := s.kx_odd
  have hky := s.ky_odd
  rw [convolution_corner, FeatureMap.zeroExtended, if_neg]
  omega

/-- Which calls compute the padded convolution: for given arrays those that fit and
whose misplaced windows give the same sums; for all contents of the arrays those with
a square kernel. -/
theorem swConv_correct_iff (K : Type*) [CommRing K] [LinearOrder K] [IsStrictOrderedRing K]
    (s : ConvShape) :
    (∀ d : ConvData K, s.ComputesConvolution d ↔
        s.Fits ∧ ∀ h < s.hOut, ∀ w < s.wOut, ∀ n < s.cOut,
          s.convolution d ((s.ky - 1) / 2) ((s.kx - 1) / 2) h w n =
            s.convolution d ((s.kx - 1) / 2) ((s.ky - 1) / 2) h w n) ∧
      ((∀ d : ConvData K, s.ComputesConvolution d) ↔ s.kx = s.ky) := by
  refine ⟨s.computesConvolution_iff, ?_⟩
  constructor
  · intro h
    by_contra hne
    have hsame := ((s.computesConvolution_iff (corner K s)).mp (h _)).2 0 (Nat.succ_pos _) 0
      (Nat.succ_pos _) 0 s.cOut_pos
    rw [convolution_corner_centred, convolution_corner_misplaced s hne] at hsame
    exact zero_ne_one hsame
  · intro hsquare d
    rw [computesConvolution_iff, Fits, hsquare]
    exact ⟨⟨Nat.le_add_right _ _, Nat.le_add_right _ _⟩, fun _ _ _ _ _ _ => rfl⟩

/-- The first layer of the notebook's network. -/
def conv1 : ConvShape where
  kx := 3
  ky := 3
  sx := 1
  sy := 1
  hIn := 28
  wIn := 28
  cIn := 1
  cOut := 16

/-- The kernel of {lit}`conv1` is square, so its convolution is right. -/
theorem swConv_correct_conv1 : conv1.ComputesConvolution (corner ℤ conv1) :=
  (swConv_correct_iff ℤ conv1).2.mpr rfl (corner ℤ conv1)

/-- A kernel of one column and three rows on an image, with stride one. -/
def tallKernel : ConvShape where
  kx := 3
  ky := 1
  sx := 1
  sy := 1
  hIn := 28
  wIn := 28
  cIn := 1
  cOut := 1

/-- A kernel of one row and three columns, with a horizontal stride of three. -/
def wideStride : ConvShape where
  kx := 1
  ky := 3
  sx := 1
  sy := 3
  hIn := 1
  wIn := 3
  cIn := 1
  cOut := 1

/-- The tall kernel ends with an {lit}`IndexError`, the wide one puts out zero where the
convolution is one. -/
theorem nonsquare_fails :
    (∀ d : ConvData ℤ, tallKernel.call d = none ∧ ¬ tallKernel.ComputesConvolution d) ∧
      wideStride.Fits ∧ ¬ wideStride.ComputesConvolution (corner ℤ wideStride) := by
  have htall : ¬ tallKernel.Fits := by
    rintro ⟨hrows, _⟩
    exact absurd hrows (by decide)
  refine ⟨?_, ⟨by decide, by decide⟩, ?_⟩
  · intro d
    refine ⟨tallKernel.call_eq_none d htall, ?_⟩
    rintro ⟨res, hres, _⟩
    rw [tallKernel.call_eq_none d htall] at hres
    exact absurd hres (by simp)
  · intro h
    have hsame := ((wideStride.computesConvolution_iff _).mp h).2 0 (by decide) 0 (by decide) 0
      (by decide)
    rw [convolution_corner_centred, convolution_corner_misplaced _ (by decide)] at hsame
    exact absurd hsame (by decide)

end ConvShape

end Software
end AcceleratorSoc
