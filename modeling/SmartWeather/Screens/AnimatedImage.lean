import SmartWeather.Library.Timeline
import SmartWeather.Swift.Runtime

/-!
# Animated images

The home screen shows its moods as animated GIFs.  A GIF gives each of its images a delay of its
own, while an animated `UIImage` shows all of its frames for the same time.  So the loader computes
the greatest common divisor of the delays, in milliseconds, and repeats each image for every time
that it goes into the image's delay.

`animatedImage_shows` says that the animation then shows what the delays say, at any time, and how
far these delays are from those of the file; `animatedImage_traps_iff` that an image that cannot be
decoded stops the app.
-/

namespace SmartWeather

open Binary

/-- The run-time errors of the loader. -/
inductive GifTrap
  | swift (trap : Trap)
  | divisionByZero
  deriving DecidableEq

/-- What the image source has at an index: the image, if it can be decoded, and the delay in seconds
that its properties say. -/
structure GifFrame (Image : Type) where
  image : Option Image
  delay : SwiftDouble

/-- An animated `UIImage`; the duration is in milliseconds. -/
structure AnimatedImage (Image : Type) where
  frames : List Image
  duration : ℤ

/-- The literal `0.1`. -/
def tenth : SwiftDouble := nearest binary64 (1 / 10)

/-- `delay < 0.1`. -/
def tooFast : SwiftDouble → Bool
  | .finite p _ => !tenth.leRat p
  | .inf neg => neg
  | .nan => false

/-- `delayForImageAtIndex`. -/
def GifFrame.delaySeconds {Image : Type} (f : GifFrame Image) : SwiftDouble :=
  if tooFast f.delay then tenth else f.delay

/-- `delaySeconds * 1000.0`. -/
def timesThousand : SwiftDouble → SwiftDouble
  | .finite p _ => nearest binary64 (p * 1000)
  | v => v

/-- `Int(delaySeconds * 1000.0)`. -/
def GifFrame.delayMilliseconds {Image : Type} (f : GifFrame Image) : Except GifTrap ℤ :=
  (intOf (timesThousand f.delaySeconds)).mapError .swift

/-- The loop of `gcdForPair`, with the larger number first. -/
def gcdLoop (a b : ℤ) : Except GifTrap ℤ :=
  if b = 0 then .error .divisionByZero
  else
    let rest := a.tmod b
    if rest = 0 then .ok b else gcdLoop b rest
termination_by b.natAbs
decreasing_by
  rw [Int.natAbs_tmod]
  exact Nat.mod_lt _ (Int.natAbs_pos.2 ‹_›)

def gcdForPair : Option ℤ → Option ℤ → Except GifTrap ℤ
  | none, none => .ok 0
  | none, some b => .ok b
  | some a, none => .ok a
  | some a, some b => if a < b then gcdLoop b a else gcdLoop a b

def gcdForArray : List ℤ → Except GifTrap ℤ
  | [] => .ok 1
  | first :: rest => (first :: rest).foldlM (fun gcd val => gcdForPair (some val) (some gcd)) first

/-- The first loop: the images that can be decoded, and all delays. -/
def fillArrays {Image : Type} : List (GifFrame Image) → Except GifTrap (List Image × List ℤ)
  | [] => .ok ([], [])
  | f :: source => do
    let delay ← f.delayMilliseconds
    let (images, delays) ← fillArrays source
    return (f.image.toList ++ images, delay :: delays)

/-- The last loop: each image as often as `gcd` goes into its delay. -/
def repeatFrames {Image : Type} (gcd : ℤ) (images : List Image) :
    ℕ → List ℤ → Except GifTrap (List Image)
  | _, [] => .ok []
  | i, delay :: delays => do
    let frame ← (element images i).mapError .swift
    if gcd = 0 then throw .divisionByZero
    let frameCount := delay.tdiv gcd
    let frames ← repeatFrames gcd images (i + 1) delays
    -- neither the delay nor the divisor is negative, and so `0..<frameCount` is a range
    return List.replicate frameCount.toNat frame ++ frames

/-- `sum += val` on `Int`. -/
def addInt (sum val : ℤ) : Except GifTrap ℤ :=
  if -2 ^ 63 ≤ sum + val ∧ sum + val < 2 ^ 63 then .ok (sum + val)
  else .error (.swift .overflow)

def animatedImageWithSource {Image : Type} (source : List (GifFrame Image)) :
    Except GifTrap (AnimatedImage Image) := do
  let (images, delays) ← fillArrays source
  let duration ← delays.foldlM addInt 0
  let gcd ← gcdForArray delays
  let frames ← repeatFrames gcd images 0 delays
  return ⟨frames, duration⟩

/-- What the animation shows at a time of its duration: its frames have equal shares of it. -/
def AnimatedImage.shownAt {Image : Type} (a : AnimatedImage Image) (t : ℚ) : Option Image :=
  a.frames[⌊t * a.frames.length / a.duration⌋₊]?

/-! ### The greatest common divisor -/

/-- `g` is positive and is divided by the common divisors of `a` and `b`, and only by them. -/
def IsGcd (g a b : ℤ) : Prop := 0 < g ∧ ∀ d, d ∣ g ↔ d ∣ a ∧ d ∣ b

theorem gcdLoop_ok (a b : ℤ) (hb : 0 < b) (ha : 0 ≤ a) :
    ∃ g, gcdLoop a b = .ok g ∧ IsGcd g a b := by
  induction a, b using gcdLoop.induct with
  | case1 => exact absurd hb (lt_irrefl 0)
  | case2 a b hne rest hrest =>
    have hdvd : b ∣ a := Int.dvd_of_tmod_eq_zero hrest
    refine ⟨b, ?_, hb, fun d => ⟨fun hd => ⟨hd.trans hdvd, hd⟩, And.right⟩⟩
    rw [gcdLoop, if_neg hne, if_pos hrest]
  | case3 a b hne rest hrest ih =>
    have hpos : 0 < rest := lt_of_le_of_ne (Int.tmod_nonneg b ha) (Ne.symm hrest)
    obtain ⟨g, hg, hgpos, hdvd⟩ := ih hpos hb.le
    refine ⟨g, ?_, hgpos, fun d => ?_⟩
    · rw [gcdLoop, if_neg hne, if_neg hrest]
      exact hg
    · have hsplit : b * a.tdiv b + rest = a := Int.mul_tdiv_add_tmod a b
      rw [hdvd d]
      constructor
      · rintro ⟨hdb, hdr⟩
        exact ⟨hsplit ▸ dvd_add (hdb.mul_right _) hdr, hdb⟩
      · rintro ⟨hda, hdb⟩
        exact ⟨hdb, (dvd_add_right (hdb.mul_right (a.tdiv b))).1 (hsplit.symm ▸ hda)⟩

theorem gcdForPair_ok {a b : ℤ} (ha : 0 < a) (hb : 0 < b) :
    ∃ g, gcdForPair (some a) (some b) = .ok g ∧ IsGcd g a b := by
  rw [gcdForPair]
  split_ifs with hlt
  · obtain ⟨g, hg, hpos, hdvd⟩ := gcdLoop_ok b a ha hb.le
    exact ⟨g, hg, hpos, fun d => (hdvd d).trans and_comm⟩
  · exact gcdLoop_ok a b hb ha.le

theorem foldlM_gcd_ok {l : List ℤ} (hl : ∀ x ∈ l, 0 < x) {first : ℤ} (hfirst : 0 < first) :
    ∃ g, l.foldlM (fun gcd val => gcdForPair (some val) (some gcd)) first = .ok g ∧ 0 < g ∧
      ∀ d, d ∣ g ↔ d ∣ first ∧ ∀ x ∈ l, d ∣ x := by
  induction l generalizing first with
  | nil => exact ⟨first, rfl, hfirst, fun d => by simp⟩
  | cons x l ih =>
    obtain ⟨g₁, hg₁, hpos₁, hdvd₁⟩ := gcdForPair_ok (hl x List.mem_cons_self) hfirst
    obtain ⟨g, hg, hpos, hdvd⟩ := ih (fun y hy => hl y (List.mem_cons_of_mem x hy)) hpos₁
    refine ⟨g, ?_, hpos, fun d => ?_⟩
    · rw [List.foldlM_cons, hg₁]
      exact hg
    · rw [hdvd d, hdvd₁ d, List.forall_mem_cons]
      tauto

/-- Of positive numbers, the greatest common divisor is computed. -/
theorem gcdForArray_ok {l : List ℤ} (hl : ∀ x ∈ l, 0 < x) : ∃ g, gcdForArray l = .ok g ∧ 0 < g ∧
    (∀ x ∈ l, g ∣ x) ∧ (l ≠ [] → ∀ d, (∀ x ∈ l, d ∣ x) → d ∣ g) := by
  cases l with
  | nil => exact ⟨1, rfl, one_pos, by simp, fun h => absurd rfl h⟩
  | cons x l =>
    obtain ⟨g, hg, hpos, hdvd⟩ := foldlM_gcd_ok hl (hl x List.mem_cons_self)
    exact ⟨g, hg, hpos, ((hdvd g).1 dvd_rfl).2, fun _ d hd =>
      (hdvd d).2 ⟨hd x List.mem_cons_self, hd⟩⟩

/-! ### The delays -/

/-- The delay of the file is a number, of less than thirty-four years. -/
def GifFrame.Timed {Image : Type} (f : GifFrame Image) : Prop :=
  ∃ p h, f.delay = .finite p h ∧ p ≤ 2 ^ 30

/-- The delay that the file says, in seconds; what is shorter counts as a tenth of a second. -/
def GifFrame.seconds {Image : Type} (f : GifFrame Image) : ℚ :=
  match f.delay with
  | .finite p _ => max (1 / 10) p
  | _ => 0

theorem exists_nearest {q : ℚ} {k : ℤ} (hq : |q| < 2 ^ k)
    (hk : (2 : ℚ) ^ k + binary64.halfUlp k ≤ 2 ^ (41 : ℤ)) :
    ∃ v h, nearest binary64 q = .finite v h ∧ |v - q| ≤ binary64.halfUlp k :=
  abs_nearest_sub_le hq (hk.trans (zpow_le_zpow_right₀ one_le_two (by decide)))

theorem exists_nearest_of_lt_one {q : ℚ} (hq : |q| < 1) :
    ∃ v h, nearest binary64 q = .finite v h ∧ |v - q| ≤ 1 / 2 ^ 54 := by
  obtain ⟨v, h, hv, herr⟩ := exists_nearest (q := q) (k := 0) (by rwa [zpow_zero])
    (by norm_num [Format.halfUlp, binary64])
  have hulp : binary64.halfUlp 0 = 1 / 2 ^ 54 := by norm_num [Format.halfUlp, binary64]
  exact ⟨v, h, hv, hulp ▸ herr⟩

theorem exists_tenth : ∃ p h, tenth = .finite p h ∧ |p - 1 / 10| ≤ 1 / 2 ^ 54 :=
  exists_nearest_of_lt_one (by norm_num)

variable {Image : Type}

theorem timed_nearest {q : ℚ} (hq : |q| < 1) (image : Option Image) :
    (⟨image, nearest binary64 q⟩ : GifFrame Image).Timed := by
  obtain ⟨p, h, hp, herr⟩ := exists_nearest_of_lt_one hq
  have hlt := (abs_lt.1 hq).2
  have hhigh := (abs_le.1 herr).2
  exact ⟨p, h, hp, by norm_num at hhigh ⊢; linarith⟩

/-- The loader takes the greater of the delay and the literal `0.1`. -/
theorem delaySeconds_of_timed {f : GifFrame Image} (hf : f.Timed) :
    ∃ p h, f.delaySeconds = .finite p h ∧ 99 / 1000 ≤ p ∧ p ≤ 2 ^ 30 ∧
      |p - f.seconds| ≤ 1 / 2 ^ 54 := by
  obtain ⟨p, h, hp, hle⟩ := hf
  obtain ⟨q, hq, hqtenth, herr⟩ := exists_tenth
  have hseconds : f.seconds = max (1 / 10) p := by rw [GifFrame.seconds, hp]
  have hclose : |max q p - f.seconds| ≤ 1 / 2 ^ 54 :=
    hseconds ▸ (abs_max_sub_max_le_abs q (1 / 10) p).trans herr
  obtain ⟨hlow, hhigh⟩ := abs_le.1 herr
  norm_num at hlow hhigh
  rw [GifFrame.delaySeconds, hp, tooFast, hqtenth, Value.leRat]
  by_cases hqp : q ≤ p
  · rw [max_eq_right hqp] at hclose
    rw [decide_eq_true hqp]
    exact ⟨p, h, rfl, by linarith, hle, hclose⟩
  · rw [max_eq_left (not_le.1 hqp).le] at hclose
    rw [decide_eq_false hqp]
    exact ⟨q, hq, rfl, by linarith, by linarith, hclose⟩

/-- The milliseconds of a frame: positive, and close to its delay. -/
structure GifFrame.Delayed (f : GifFrame Image) (ms : ℤ) : Prop where
  computed : f.delayMilliseconds = .ok ms
  pos : 0 < ms
  bounded : ms ≤ 2 ^ 40
  close : |(ms : ℚ) - f.seconds * 1000| ≤ 1 + 1 / 2 ^ 13

theorem exists_delayed {f : GifFrame Image} (hf : f.Timed) : ∃ ms, f.Delayed ms := by
  obtain ⟨p, h, hp, hlow, hhigh, hclose⟩ := delaySeconds_of_timed hf
  have hsize : |p * 1000| < 2 ^ (40 : ℤ) := by
    rw [abs_of_nonneg (by linarith)]
    norm_num at hhigh ⊢
    linarith
  obtain ⟨v, hv, hnearest, herr⟩ := exists_nearest hsize (by norm_num [Format.halfUlp, binary64])
  have hulp : binary64.halfUlp 40 = 1 / 2 ^ 14 := by norm_num [Format.halfUlp, binary64]
  rw [hulp] at herr
  have hbounds := abs_le.1 herr
  have hv₀ : 0 ≤ v := by linarith [hbounds.1]
  have hint : (Value.finite v hv : SwiftDouble).toInt 64 = some (Rounding.toward0 v) := by
    refine Value.toInt_of_abs_le (n := 2 ^ 41) ?_ (by norm_num)
    rw [abs_of_nonneg hv₀]
    norm_num at hhigh ⊢
    linarith [hbounds.2]
  have hfloor := Int.floor_le v
  have hlt := Int.lt_floor_add_one v
  refine ⟨⌊v⌋, ?_, ?_, ?_, ?_⟩
  · rw [GifFrame.delayMilliseconds, hp, timesThousand, hnearest, intOf, hint,
      Rounding.toward0_of_nonneg hv₀]
    rfl
  · exact Int.floor_pos.2 (by linarith [hbounds.1])
  · have hle : (⌊v⌋ : ℚ) ≤ 2 ^ 40 := by
      norm_num at hhigh ⊢
      linarith [hbounds.2]
    exact_mod_cast hle
  · obtain ⟨hclose₁, hclose₂⟩ := abs_le.1 hclose
    norm_num at hclose₁ hclose₂ hbounds
    rw [abs_le]
    constructor <;> linarith [hbounds.1, hbounds.2]

/-! ### The loops of the loader -/

variable {source : List (GifFrame Image)} {images : List Image} {delays : List ℤ} {g : ℤ} {i : ℕ}

theorem fillArrays_ok (htimed : ∀ f ∈ source, f.Timed) : ∃ delays,
    fillArrays source = .ok (source.filterMap GifFrame.image, delays) ∧
      List.Forall₂ GifFrame.Delayed source delays := by
  induction source with
  | nil => exact ⟨[], rfl, .nil⟩
  | cons f source ih =>
    obtain ⟨ms, hms⟩ := exists_delayed (htimed f List.mem_cons_self)
    obtain ⟨delays, hfill, hdelays⟩ := ih fun f hf => htimed f (List.mem_cons_of_mem _ hf)
    refine ⟨ms :: delays, ?_, .cons hms hdelays⟩
    rw [fillArrays, hms.computed, hfill]
    cases himage : f.image with
    | none =>
      rw [List.filterMap_cons_none himage]
      rfl
    | some image =>
      rw [List.filterMap_cons_some himage]
      rfl

theorem foldlM_addInt_ok (hdelays : ∀ ms ∈ delays, 0 < ms) {sum : ℤ} (hsum : 0 ≤ sum)
    (hlt : sum + delays.sum < 2 ^ 63) : delays.foldlM addInt sum = .ok (sum + delays.sum) := by
  induction delays generalizing sum with
  | nil => exact congrArg Except.ok (add_zero sum).symm
  | cons ms delays ih =>
    have hms := hdelays ms List.mem_cons_self
    have hrest : ∀ ms ∈ delays, 0 < ms := fun ms h => hdelays ms (List.mem_cons_of_mem _ h)
    have hnonneg : 0 ≤ delays.sum := List.sum_nonneg fun ms h => (hrest ms h).le
    rw [List.sum_cons] at hlt ⊢
    rw [List.foldlM_cons, addInt, if_pos ⟨by linarith, by linarith⟩, ← add_assoc]
    exact ih hrest (by linarith) (by linarith)

theorem repeatFrames_ok (hg : 0 < g) (hdelays : ∀ ms ∈ delays, 0 < ms)
    (hlength : i + delays.length ≤ images.length) :
    repeatFrames g images i delays = .ok (Timeline.expand g ((images.drop i).zip delays)) := by
  induction delays generalizing i with
  | nil =>
    rw [List.zip_nil_right]
    rfl
  | cons ms delays ih =>
    rw [List.length_cons] at hlength
    have hi : i < images.length := by omega
    have hframe : element images i = .ok images[i] := element_eq_ok.2 (List.getElem?_eq_getElem hi)
    rw [List.drop_eq_getElem_cons hi, List.zip_cons_cons, Timeline.expand_cons, repeatFrames,
      hframe, ih (fun ms h => hdelays ms (List.mem_cons_of_mem _ h)) (by omega),
      Int.tdiv_eq_ediv_of_nonneg (hdelays ms List.mem_cons_self).le]
    simp only [if_neg hg.ne']
    rfl

/-- With too few images, the subscript of the last loop is out of bounds. -/
theorem repeatFrames_short (hg : 0 < g) (hi : i ≤ images.length)
    (hlength : images.length < i + delays.length) :
    repeatFrames g images i delays = .error (.swift .outOfBounds) := by
  induction delays generalizing i with
  | nil =>
    rw [List.length_nil] at hlength
    omega
  | cons ms delays ih =>
    rw [List.length_cons] at hlength
    rw [repeatFrames]
    by_cases hlt : i < images.length
    · rw [element_eq_ok.2 (List.getElem?_eq_getElem hlt), ih hlt (by omega)]
      simp only [if_neg hg.ne']
      rfl
    · rw [element, List.getElem?_eq_none (by omega)]
      rfl

/-- Up to the last loop nothing goes wrong. -/
theorem animatedImageWithSource_eq (htimed : ∀ f ∈ source, f.Timed)
    (hlength : source.length < 2 ^ 23) : ∃ delays g,
    List.Forall₂ GifFrame.Delayed source delays ∧ (∀ ms ∈ delays, 0 < ms) ∧ 0 < g ∧
      (∀ ms ∈ delays, g ∣ ms) ∧ (delays ≠ [] → ∀ d, (∀ ms ∈ delays, d ∣ ms) → d ∣ g) ∧
      animatedImageWithSource source =
        (repeatFrames g (source.filterMap GifFrame.image) 0 delays).map fun frames =>
          ⟨frames, delays.sum⟩ := by
  obtain ⟨delays, hfill, hdelays⟩ := fillArrays_ok htimed
  have hdelayed : ∀ ms ∈ delays, ∃ f : GifFrame Image, f.Delayed ms := by
    intro ms hms
    obtain ⟨n, hn, rfl⟩ := List.getElem_of_mem hms
    exact ⟨_, hdelays.get (hdelays.length_eq ▸ hn) hn⟩
  have hpos : ∀ ms ∈ delays, 0 < ms := fun ms hms => (hdelayed ms hms).elim fun _ h => h.pos
  obtain ⟨g, hgcd, hg, hdvd, hgreatest⟩ := gcdForArray_ok hpos
  have hsum : 0 + delays.sum < 2 ^ 63 := by
    have hle : delays.sum ≤ delays.length • (2 ^ 40 : ℤ) :=
      List.sum_le_card_nsmul delays _ fun ms hms => (hdelayed ms hms).elim fun _ h => h.bounded
    rw [nsmul_eq_mul, ← hdelays.length_eq] at hle
    have hcount : (source.length : ℤ) < 2 ^ 23 := by exact_mod_cast hlength
    linarith
  refine ⟨delays, g, hdelays, hpos, hg, hdvd, hgreatest, ?_⟩
  rw [animatedImageWithSource, hfill]
  simp only [bind, Except.bind, foldlM_addInt_ok hpos le_rfl hsum, hgcd, zero_add]
  cases repeatFrames g (source.filterMap GifFrame.image) 0 delays <;> rfl

/-! ### The animation -/

/-- **The animation keeps the delays.**  If all images can be decoded, the loader computes an
animation that shows at any time what the delays in milliseconds say.  No animation with frames of
an equal length that divides the delays has fewer frames.  The delays differ from those of the file,
or from a tenth of a second where that is longer, by at most about a millisecond, and so the starts
of the images by as many milliseconds as there are images before. -/
theorem animatedImage_shows (htimed : ∀ f ∈ source, f.Timed) (hlength : source.length < 2 ^ 23)
    (himages : ∀ f ∈ source, f.image.isSome) :
    ∃ delays a, animatedImageWithSource source = .ok a ∧ a.duration = delays.sum ∧
      (∀ t : ℚ, 0 ≤ t → t < a.duration →
        a.shownAt t = Timeline.showing ((source.filterMap GifFrame.image).zip delays) t) ∧
      (∀ d, (∀ ms ∈ delays, d ∣ ms) → a.frames.length * d ≤ a.duration) ∧
      List.Forall₂ (fun f (ms : ℤ) => f.delayMilliseconds = .ok ms ∧
        |(ms : ℚ) - f.seconds * 1000| ≤ 1 + 1 / 2 ^ 13) source delays ∧
      ∀ n, |Timeline.start (delays.map Int.cast) n -
        Timeline.start (source.map fun f => f.seconds * 1000) n| ≤ n * (1 + 1 / 2 ^ 13) := by
  obtain ⟨delays, g, hdelays, hpos, hg, hdvd, hgreatest, heq⟩ :=
    animatedImageWithSource_eq htimed hlength
  have hcount : (source.filterMap GifFrame.image).length = delays.length :=
    (List.filterMap_length_eq_length.2 himages).trans hdelays.length_eq
  have hclose : List.Forall₂ (fun f (ms : ℤ) => |(ms : ℚ) - f.seconds * 1000| ≤ 1 + 1 / 2 ^ 13)
      source delays := hdelays.imp fun _ _ h => h.close
  have hmem : ∀ e ∈ (source.filterMap GifFrame.image).zip delays, e.2 ∈ delays :=
    fun e he => (List.of_mem_zip he).2
  have hslots := Timeline.length_expand_mul (fun e he => hdvd e.2 (hmem e he))
    (fun e he => (hpos e.2 (hmem e he)).le) hg
  rw [Timeline.total, List.map_snd_zip hcount.ge] at hslots
  have hok : animatedImageWithSource source =
      .ok ⟨Timeline.expand g ((source.filterMap GifFrame.image).zip delays), delays.sum⟩ := by
    rw [heq, repeatFrames_ok hg hpos (by omega)]
    rfl
  refine ⟨delays, _, hok, rfl, fun t ht htlt => ?_, fun d hd => ?_,
    hdelays.imp fun _ _ h => ⟨h.computed, h.close⟩, fun n => ?_⟩
  · have hduration : (0 : ℚ) < (delays.sum : ℤ) := ht.trans_lt htlt
    have hslot : t * (Timeline.expand g ((source.filterMap GifFrame.image).zip delays)).length /
        (delays.sum : ℤ) = t / g := by
      rw [← hslots] at hduration ⊢
      push_cast at hduration ⊢
      have hframes := left_ne_zero_of_mul hduration.ne'
      field_simp
    rw [AnimatedImage.shownAt, hslot]
    exact Timeline.getElem?_expand (fun e he => hdvd e.2 (hmem e he))
      (fun e he => (hpos e.2 (hmem e he)).le) hg ht
  · rcases eq_or_ne delays [] with rfl | hne
    · rw [List.zip_nil_right]
      exact (zero_mul d).le
    · have hle : d ≤ g := Int.le_of_dvd hg (hgreatest hne d hd)
      exact hslots ▸ mul_le_mul_of_nonneg_left hle (Int.natCast_nonneg _)
  · refine Timeline.abs_start_sub_le ?_ (by norm_num) n
    exact List.forall₂_map_left_iff.2 (List.forall₂_map_right_iff.2 hclose.flip)

/-- Two images, the first one for less than a tenth of a second. -/
def blinking : List (GifFrame Bool) :=
  [⟨some true, nearest binary64 (1 / 50)⟩, ⟨some false, nearest binary64 (1 / 2)⟩]

theorem animatedImage_shows_blinking : ∃ a : AnimatedImage Bool,
    animatedImageWithSource blinking = .ok a ∧ a.duration = 600 ∧
      (∀ t : ℚ, 0 ≤ t → t < a.duration →
        a.shownAt t = Timeline.showing [(true, 100), (false, 500)] t) ∧
      List.Forall₂ (fun f (ms : ℤ) => |(ms : ℚ) - f.seconds * 1000| ≤ 1 + 1 / 2 ^ 13)
        blinking [100, 500] ∧
      ∀ n, |Timeline.start [100, 500] n -
        Timeline.start (blinking.map fun f => f.seconds * 1000) n| ≤ n * (1 + 1 / 2 ^ 13) := by
  have htimed : ∀ f ∈ blinking, f.Timed := by
    simp only [blinking, List.forall_mem_cons, List.not_mem_nil, false_imp_iff, implies_true,
      and_true]
    exact ⟨timed_nearest (by norm_num) _, timed_nearest (by norm_num) _⟩
  obtain ⟨delays, a, ha, hduration, hshows, -, hclose, hstart⟩ :=
    animatedImage_shows htimed (by decide) (by decide)
  obtain rfl : delays = [100, 500] := by
    obtain ⟨first, rest, ⟨hfirst, -⟩, hrest, rfl⟩ := List.forall₂_cons_left_iff.1 hclose
    obtain ⟨second, rest, ⟨hsecond, -⟩, hnil, rfl⟩ := List.forall₂_cons_left_iff.1 hrest
    obtain rfl := List.forall₂_nil_left_iff.1 hnil
    have h100 : (⟨some true, nearest binary64 (1 / 50)⟩ : GifFrame Bool).delayMilliseconds =
        .ok 100 := by decide +kernel
    have h500 : (⟨some false, nearest binary64 (1 / 2)⟩ : GifFrame Bool).delayMilliseconds =
        .ok 500 := by decide +kernel
    rw [Except.ok.inj (hfirst.symm.trans h100), Except.ok.inj (hsecond.symm.trans h500)]
  exact ⟨a, ha, hduration, hshows, hclose.imp fun _ _ h => h.2, hstart⟩

/-- The loader stops the app exactly if there is an image that cannot be decoded. -/
theorem animatedImage_traps_iff (htimed : ∀ f ∈ source, f.Timed)
    (hlength : source.length < 2 ^ 23) :
    animatedImageWithSource source = .error (.swift .outOfBounds) ↔
      ∃ f ∈ source, f.image = none := by
  obtain ⟨delays, g, hdelays, hpos, hg, -, -, heq⟩ := animatedImageWithSource_eq htimed hlength
  have hcount := List.filterMap_length_eq_length (f := GifFrame.image) (l := source)
  have hle := List.length_filterMap_le GifFrame.image source
  rw [hdelays.length_eq] at hcount hle
  constructor
  · intro hstops
    by_contra hnone
    push Not at hnone
    have hall := hcount.2 fun f hf => Option.isSome_iff_ne_none.2 (hnone f hf)
    rw [heq, repeatFrames_ok hg hpos (by omega)] at hstops
    cases hstops
  · rintro ⟨f, hf, hnone⟩
    have hne : (source.filterMap GifFrame.image).length ≠ delays.length := fun h => by
      have hsome := hcount.1 h f hf
      rw [hnone] at hsome
      cases hsome
    rw [heq, repeatFrames_short hg (Nat.zero_le _) (by omega)]
    rfl

theorem animatedImage_traps_iff_truncated :
    animatedImageWithSource [⟨some true, tenth⟩, ⟨none, tenth⟩] = .error (.swift .outOfBounds) := by
  have htimed : ∀ f ∈ [⟨some true, tenth⟩, (⟨none, tenth⟩ : GifFrame Bool)], f.Timed := by
    simp only [List.forall_mem_cons, List.not_mem_nil, false_imp_iff, implies_true, and_true]
    exact ⟨timed_nearest (by norm_num) _, timed_nearest (by norm_num) _⟩
  exact (animatedImage_traps_iff htimed (by decide)).2 ⟨_, List.mem_cons_of_mem _
    List.mem_cons_self, rfl⟩

end SmartWeather
