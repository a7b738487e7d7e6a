/-
log.c: `_file_strip`, which takes the part of a build path behind the first `/src/`, for every log line and every panic. It is a
counter over the characters of the pattern. Three things go wrong in it: the end of the path is taken to be the digit `0` and not
the NUL, that digit ends it wherever it stands, and a slash that breaks off one start of the pattern is not taken for the start of
another.
-/
import Cing.Kernel.Panic
import Cing.Lib.Search

namespace Cing.Log

open Search

/-! ## The code -/

/-- What `_file_strip` does, with the offsets of the bytes it reads, the last one first. -/
abbrev StripM := EStateM Stop (List Nat)

/-- `file[idx]`. -/
def readChar (file : Nat → UInt8) (idx : Nat) : StripM UInt8 := do
  modify (idx :: ·)
  return file idx

/-- The switch of `_file_strip`: `score` and `res` at its end. The result is an offset into the path. -/
def stripSwitch (ch : UInt8) (idx res : Nat) : Nat → StripM (Nat × Nat)
  | 0 => return (if ch = '/'.toUInt8 then 1 else 0, res)
  | 1 => return (if ch = 's'.toUInt8 then 2 else 0, res)
  | 2 => return (if ch = 'r'.toUInt8 then 3 else 0, res)
  | 3 => return (if ch = 'c'.toUInt8 then 4 else 0, res)
  | 4 => return (if ch = '/'.toUInt8 then 5 else 0, res)
  | 5 => return (6, idx)
  | _ => throw (.panic "Unreachable code.")

/-- The loop of `_file_strip`, at most `n` rounds. -/
def stripLoop (dbg : Bool) (file : Nat → UInt8) : Nat → Nat → Nat → Nat → StripM Nat
  | 0, _, _, _ => throw .hang
  | n + 1, idx, score, res => do
    let ch ← readChar file idx
    if ch = '0'.toUInt8 then return res
    else do
      let r ← stripSwitch ch idx res score
      kernelAssertD dbg (r.1 ≤ 6) "score <= 6"
      if r.1 = 6 then return r.2 else stripLoop dbg file n (idx + 1) r.1 r.2

/-- `_file_strip`, at most `n` rounds. -/
def fileStrip (dbg : Bool) (file : Nat → UInt8) (n : Nat) : StripM Nat := stripLoop dbg file n 0 0 0

/-! ## What it is for -/

/-- `/src/`. -/
def srcDir : List UInt8 := ['/'.toUInt8, 's'.toUInt8, 'r'.toUInt8, 'c'.toUInt8, '/'.toUInt8]

/-- Characters in memory, from an offset on. -/
def CharsAt (file : Nat → UInt8) (idx : Nat) (l : List UInt8) : Prop := ∀ i (h : i < l.length), file (idx + i) = l[i]

/-- A path in memory: its characters, and a NUL. What is behind it may be anything. -/
structure PathAt (file : Nat → UInt8) (path : List UInt8) : Prop where
  chars : CharsAt file 0 (path ++ [0])
  ne_nul : 0 ∉ path

/-- The suffix behind the first `/src/`, or all of the path if it has none. -/
def Stripped (path suffix : List UInt8) : Prop :=
  (∃ u, FirstAt srcDir path u suffix) ∨ ((∀ u v, path ≠ u ++ srcDir ++ v) ∧ suffix = path)

/-- The path is stripped as it should be, and nothing behind its NUL is read. -/
def StripsWell (dbg : Bool) (file : Nat → UInt8) (path : List UInt8) : Prop :=
  ∃ n r reads, fileStrip dbg file n [] = .ok r reads ∧ (∀ x ∈ reads, x ≤ path.length) ∧ r ≤ path.length ∧
    Stripped path (path.drop r)

/-- When `_file_strip` does what it is for. Without `/src/` a digit `0` has to end it. With one, there may be no `0` up to the
character behind it, and before it every start of `/src/` has to be broken off by a character other than its slash. -/
def StripOk (path : List UInt8) : Prop :=
  ((∀ u v, path ≠ u ++ srcDir ++ v) ∧ '0'.toUInt8 ∈ path) ∨
    ∃ u v, FirstAt srcDir path u v ∧ Broken srcDir u ∧ '0'.toUInt8 ∉ u ∧ v.head? ≠ some '0'.toUInt8

/-! ## Rounds -/

variable {dbg : Bool} {file : Nat → UInt8} {path l u v : List UInt8} {n idx score res : Nat} {reads : List Nat}

theorem srcDir_next_le (h : score ≤ 5) (ch : UInt8) : next srcDir score ch ≤ 5 := by
  have hle : score ≤ srcDir.length := h
  exact next_le hle

theorem readChar_run (file : Nat → UInt8) (idx : Nat) (reads : List Nat) :
    readChar file idx reads = .ok (file idx) (idx :: reads) := rfl

/-- The digit ends the loop. -/
theorem stripLoop_digit (h : file idx = '0'.toUInt8) (n score res : Nat) (reads : List Nat) :
    stripLoop dbg file (n + 1) idx score res reads = .ok res (idx :: reads) := by
  rw [stripLoop, Exec.bind_ok (readChar_run file idx reads), if_pos h, Exec.pure_run]

/-- Behind the pattern the loop returns. -/
theorem stripLoop_found (h : file idx ≠ '0'.toUInt8) (n res : Nat) (reads : List Nat) :
    stripLoop dbg file (n + 1) idx 5 res reads = .ok idx (idx :: reads) := by
  rw [stripLoop, Exec.bind_ok (readChar_run file idx reads), if_neg h]
  have hswitch : stripSwitch (file idx) idx res 5 (idx :: reads) = .ok (6, idx) (idx :: reads) := rfl
  rw [Exec.bind_ok hswitch, Exec.bind_ok (kernelAssertD_pos le_rfl dbg _ _), if_pos rfl, Exec.pure_run]

theorem stripSwitch_run (ch : UInt8) (idx res : Nat) (h : score < 5) (reads : List Nat) :
    stripSwitch ch idx res score reads = .ok (next srcDir score ch, res) reads := by
  have hget : ∀ c : UInt8, (some c = some ch) = (ch = c) := fun c =>
    propext ⟨fun h => (Option.some.inj h).symm, fun h => congrArg some h.symm⟩
  unfold next srcDir
  interval_cases score <;> simp [stripSwitch, hget]

/-- A round inside the pattern moves the counter. -/
theorem stripLoop_round (h : file idx ≠ '0'.toUInt8) (hscore : score < 5) (n res : Nat) (reads : List Nat) :
    stripLoop dbg file (n + 1) idx score res reads =
      stripLoop dbg file n (idx + 1) (next srcDir score (file idx)) res (idx :: reads) := by
  have hle := srcDir_next_le hscore.le (file idx)
  rw [stripLoop, Exec.bind_ok (readChar_run file idx reads), if_neg h, Exec.bind_ok (stripSwitch_run _ _ _ hscore _),
    Exec.bind_ok (kernelAssertD_pos (by omega) dbg _ _), if_neg (by omega)]

/-- More rounds change nothing once the loop returned. -/
theorem stripLoop_mono {r : Nat} {reads' : List Nat} (h : stripLoop dbg file n idx score res reads = .ok r reads') (m : Nat) :
    stripLoop dbg file (n + m) idx score res reads = .ok r reads' := by
  induction n generalizing idx score res reads with
  | zero => cases h
  | succ n ih =>
    rw [Nat.succ_add]
    rw [stripLoop, Exec.bind_ok (readChar_run file idx reads)] at h ⊢
    split at h
    next hd => rwa [if_pos hd]
    next hd =>
      rw [if_neg hd]
      obtain ⟨p, s₁, hswitch, h⟩ := Exec.bind_eq_ok.1 h
      obtain ⟨q, s₂, hassert, h⟩ := Exec.bind_eq_ok.1 h
      rw [Exec.bind_ok hswitch, Exec.bind_ok hassert]
      split at h
      next h6 => rwa [if_pos h6]
      next h6 =>
        rw [if_neg h6]
        exact ih h

/-! ## Runs -/

theorem charsAt_cons {c : UInt8} : CharsAt file idx (c :: l) ↔ file idx = c ∧ CharsAt file (idx + 1) l := by
  constructor
  · intro h
    refine ⟨h 0 (Nat.succ_pos _), fun i hi => ?_⟩
    have hc := h (i + 1) (Nat.succ_lt_succ hi)
    rwa [show idx + (i + 1) = idx + 1 + i by omega] at hc
  · rintro ⟨h0, h⟩ i hi
    cases i with
    | zero => exact h0
    | succ i =>
      rw [show idx + (i + 1) = idx + 1 + i by omega]
      exact h i (Nat.lt_of_succ_lt_succ hi)

theorem charsAt_append : CharsAt file idx (u ++ v) ↔ CharsAt file idx u ∧ CharsAt file (idx + u.length) v := by
  induction u generalizing idx with
  | nil => exact ⟨fun h => ⟨nofun, h⟩, fun h => h.2⟩
  | cons c u ih =>
    rw [List.cons_append, charsAt_cons, charsAt_cons, ih, List.length_cons, show idx + 1 + u.length = idx + (u.length + 1) by omega,
      and_assoc]

/-- Over characters that are not the digit and do not end the pattern, the loop is the counter. -/
theorem stripLoop_run (dbg : Bool) (hl : CharsAt file idx l) (hd : '0'.toUInt8 ∉ l) (hscore : score ≤ 5)
    (hend : count srcDir score l < 5)
    (n res : Nat) (reads : List Nat) : ∃ reads', stripLoop dbg file (n + l.length) idx score res reads =
      stripLoop dbg file n (idx + l.length) (count srcDir score l) res reads' ∧
      ∀ x, x ∈ reads' ↔ (idx ≤ x ∧ x < idx + l.length) ∨ x ∈ reads := by
  induction l generalizing idx score reads with
  | nil => exact ⟨reads, rfl, fun x => ⟨.inr, fun h => h.resolve_left (by simp)⟩⟩
  | cons c l ih =>
    obtain ⟨rfl, htail⟩ := charsAt_cons.1 hl
    obtain ⟨hc, hd⟩ := not_or.1 fun h => hd (List.mem_cons.2 h)
    have hlt : score < 5 := by
      refine hscore.lt_of_ne fun he => ?_
      have hfull : count srcDir 5 (file idx :: l) = 5 := count_full
      rw [he, hfull] at hend
      omega
    obtain ⟨reads', hrun, hmem⟩ := ih htail hd (srcDir_next_le hscore _) hend (idx :: reads)
    refine ⟨reads', ?_, fun x => ?_⟩
    · rw [List.length_cons, ← Nat.add_assoc, stripLoop_round (fun h => hc h.symm) hlt, hrun, count_cons,
        show idx + 1 + l.length = idx + (l.length + 1) by omega]
    · rw [hmem, List.mem_cons, List.length_cons]
      constructor
      · rintro (hx | rfl | hx)
        · exact .inl (by omega)
        · exact .inl (by omega)
        · exact .inr hx
      · rintro (hx | hx)
        · rcases hx.1.eq_or_lt with rfl | hlt
          · exact .inr (.inl rfl)
          · exact .inl (by omega)
        · exact .inr (.inr hx)

/-- What the loop returns is what it had, or the offset of a character it read. -/
theorem stripLoop_bounds {r : Nat} {reads' : List Nat} (hscore : score ≤ 5)
    (h : stripLoop dbg file n idx score res reads = .ok r reads') :
    (r = res ∨ (idx ≤ r ∧ (score < 5 → idx < r))) ∧ idx ∈ reads' ∧ ∀ x ∈ reads, x ∈ reads' := by
  induction n generalizing idx score reads with
  | zero => cases h
  | succ n ih =>
    by_cases hd : file idx = '0'.toUInt8
    · rw [stripLoop_digit hd] at h
      cases h
      exact ⟨.inl rfl, List.mem_cons_self .., fun x hx => List.mem_cons_of_mem _ hx⟩
    rcases hscore.lt_or_eq with hlt | rfl
    · rw [stripLoop_round hd hlt] at h
      obtain ⟨hr, -, hmem⟩ := ih (srcDir_next_le hlt.le _) h
      refine ⟨hr.imp_right fun hr => ⟨by omega, fun _ => by omega⟩, hmem _ (List.mem_cons_self ..), fun x hx =>
        hmem x (List.mem_cons_of_mem _ hx)⟩
    · rw [stripLoop_found hd] at h
      cases h
      exact ⟨.inr ⟨le_rfl, fun h => absurd h (lt_irrefl 5)⟩, List.mem_cons_self .., fun x hx => List.mem_cons_of_mem _ hx⟩

/-- Whatever it reads, the loop returns or goes on for ever: the code marked as unreachable is not reached. -/
theorem stripLoop_stops (hscore : score ≤ 5) (reads : List Nat) : Exec.stops (stripLoop dbg file n idx score res reads) = none ∨
    Exec.stops (stripLoop dbg file n idx score res reads) = some .hang := by
  induction n generalizing idx score reads with
  | zero => exact .inr rfl
  | succ n ih =>
    by_cases hd : file idx = '0'.toUInt8
    · rw [stripLoop_digit hd]
      exact .inl rfl
    rcases hscore.lt_or_eq with hlt | rfl
    · rw [stripLoop_round hd hlt]
      exact ih (srcDir_next_le hlt.le _) _
    · rw [stripLoop_found hd]
      exact .inl rfl

/-- Up to a digit, without the pattern before it: the whole path is returned. -/
theorem fileStrip_digit (hl : CharsAt file 0 (u ++ ['0'.toUInt8])) (hd : '0'.toUInt8 ∉ u) (hend : count srcDir 0 u < 5) (dbg : Bool)
    (n : Nat) : ∃ reads, fileStrip dbg file (n + 1 + u.length) [] = .ok 0 reads ∧ ∀ x ∈ reads, x ≤ u.length := by
  obtain ⟨hu, hlast⟩ := charsAt_append.1 hl
  obtain ⟨reads, hrun, hmem⟩ := stripLoop_run dbg hu hd (Nat.zero_le 5) hend (n + 1) 0 []
  rw [Nat.zero_add] at hrun hlast hmem
  refine ⟨u.length :: reads, hrun.trans (stripLoop_digit (charsAt_cons.1 hlast).1 ..), fun x hx => ?_⟩
  rcases List.mem_cons.1 hx with rfl | hx
  · exact le_rfl
  · have := (hmem x).1 hx
    simp at this
    omega

/-- Where the counter is at zero in front of the pattern, the loop comes to its end. -/
theorem stripLoop_pattern (hl : CharsAt file 0 (u ++ srcDir)) (hd : '0'.toUInt8 ∉ u) (hzero : count srcDir 0 u = 0) (dbg : Bool)
    (n : Nat) : ∃ reads, fileStrip dbg file (n + 1 + (u.length + 4)) [] = stripLoop dbg file n (u.length + 5) 5 0 reads ∧
      ∀ x ∈ reads, x < u.length + 5 := by
  have hsplit : u ++ srcDir = (u ++ srcDir.take 4) ++ ['/'.toUInt8] := by
    rw [List.append_assoc]
    rfl
  have hfour : count srcDir 0 (u ++ srcDir.take 4) = 4 := by
    rw [count_append, hzero]
    rfl
  have hlen : (u ++ srcDir.take 4).length = u.length + 4 := List.length_append
  rw [hsplit] at hl
  obtain ⟨hu, hlast⟩ := charsAt_append.1 hl
  have hd4 : '0'.toUInt8 ∉ u ++ srcDir.take 4 := by
    rw [List.mem_append]
    exact not_or.2 ⟨hd, by decide⟩
  obtain ⟨reads, hrun, hmem⟩ := stripLoop_run dbg hu hd4 (Nat.zero_le 5) (by rw [hfour]; omega) (n + 1) 0 []
  rw [Nat.zero_add, hlen] at hrun hlast hmem
  obtain ⟨hslash, -⟩ := charsAt_cons.1 hlast
  rw [hfour, stripLoop_round (by rw [hslash]; decide) (by omega), hslash] at hrun
  refine ⟨_, hrun, fun x hx => ?_⟩
  rcases List.mem_cons.1 hx with rfl | hx
  · omega
  · have := (hmem x).1 hx
    simp at this
    omega

theorem PathAt.take (h : PathAt file path) (hw : u <+: path) : CharsAt file 0 u := by
  obtain ⟨t, rfl⟩ := hw
  exact (charsAt_append.1 (charsAt_append.1 h.chars).1).1

theorem StripOk.strips (h : StripOk path) (hfile : PathAt file path) (dbg : Bool) : StripsWell dbg file path := by
  rcases h with ⟨hno, hd⟩ | ⟨u, v, hfirst, hbroken, hd, hhead⟩
  · obtain ⟨u, v, rfl, hfresh⟩ := List.eq_append_cons_of_mem hd
    have habsent : ¬ srcDir <:+: u := by
      rintro ⟨a, b, rfl⟩
      exact hno a (b ++ '0'.toUInt8 :: v) (by rw [List.append_assoc])
    have hu : CharsAt file 0 (u ++ ['0'.toUInt8]) := hfile.take ⟨v, by rw [List.append_assoc]; rfl⟩
    obtain ⟨reads, hrun, hreads⟩ := fileStrip_digit hu hfresh (Search.count_lt habsent) dbg 0
    refine ⟨_, 0, reads, hrun, fun x hx => ?_, Nat.zero_le _, .inr ⟨hno, rfl⟩⟩
    have := hreads x hx
    rw [List.length_append]
    omega
  · have hpath : path = u ++ srcDir ++ v := hfirst.1
    have hlen : path.length = u.length + 5 + v.length := by
      rw [hpath, List.length_append, List.length_append]
      rfl
    have hu : CharsAt file 0 (u ++ srcDir) := hfile.take ⟨v, hpath.symm⟩
    obtain ⟨reads, hrun, hreads⟩ := stripLoop_pattern hu hd hbroken.count dbg 1
    -- the character behind the pattern is the NUL or one of the path
    have hnext : file (u.length + 5) ≠ '0'.toUInt8 := by
      have hrest := hfile.chars
      rw [hpath, List.append_assoc] at hrest
      obtain ⟨-, hrest⟩ := charsAt_append.1 hrest
      rw [Nat.zero_add, List.length_append] at hrest
      cases v with
      | nil =>
        have hnul : file (u.length + 5) = 0 := (charsAt_cons.1 hrest).1
        rw [hnul]
        decide
      | cons c v =>
        have hc : file (u.length + 5) = c := (charsAt_cons.1 hrest).1
        rw [hc]
        exact fun he => hhead (congrArg some he)
    refine ⟨_, u.length + 5, (u.length + 5) :: reads, hrun.trans (stripLoop_found hnext ..), fun x hx => ?_, by omega, .inl ⟨u, ?_⟩⟩
    · rcases List.mem_cons.1 hx with rfl | hx
      · omega
      · have := hreads x hx
        omega
    · have hdrop : path.drop (u.length + 5) = v := by
        rw [hpath]
        exact List.drop_left' List.length_append
      rw [hdrop]
      exact hfirst

/-- In front of its first place, the pattern is found only if the counter is at zero there. -/
theorem count_eq_zero_of_found {r : Nat} {reads : List Nat} (hfile : PathAt file path) (hfirst : FirstAt srcDir path u v)
    (hd : '0'.toUInt8 ∉ u) (hrun : fileStrip dbg file n [] = .ok r reads) (hr : r = u.length + 5) : count srcDir 0 u = 0 := by
  have hpath : path = u ++ srcDir ++ v := hfirst.1
  have hu : u ++ srcDir <+: path := ⟨v, hpath.symm⟩
  have hlt : count srcDir 0 u < 5 := hfirst.count_lt ((List.prefix_append u srcDir).trans hu) (Nat.lt_add_of_pos_right (by decide))
  have hslash : count srcDir 0 (u ++ ['/'.toUInt8]) < 5 :=
    hfirst.count_lt (List.IsPrefix.trans ⟨srcDir.drop 1, List.append_assoc ..⟩ hu)
      (by rw [List.length_append]; exact Nat.add_lt_add_left (by decide) _)
  by_contra hne
  -- a start of the pattern is broken off by the slash, and the rest of the pattern is read without it
  have hmiss : count srcDir 0 (u ++ srcDir) = 1 := by
    rw [count_append] at hslash ⊢
    generalize count srcDir 0 u = k at hne hlt hslash ⊢
    interval_cases k
    · exact absurd rfl hne
    · rfl
    · rfl
    · rfl
    · exact absurd hslash (by decide)
  have hd' : '0'.toUInt8 ∉ u ++ srcDir := by
    rw [List.mem_append]
    exact not_or.2 ⟨hd, by decide⟩
  obtain ⟨reads', hrun', -⟩ := stripLoop_run dbg (hfile.take hu) hd' (Nat.zero_le 5) (by rw [hmiss]; omega) n 0 []
  have hmono := stripLoop_mono hrun (u ++ srcDir).length
  rw [hrun', hmiss] at hmono
  obtain ⟨hbound, -, -⟩ := stripLoop_bounds (by omega) hmono
  have hlen : (u ++ srcDir).length = u.length + 5 := List.length_append
  rw [hlen] at hbound
  omega

theorem StripsWell.ok (h : StripsWell dbg file path) (hfile : PathAt file path) : StripOk path := by
  obtain ⟨n, r, reads, hrun, hreads, hr, hstr⟩ := h
  rcases hstr with ⟨u, hfirst⟩ | ⟨hno, -⟩
  · have hpath : path = u ++ srcDir ++ path.drop r := hfirst.1
    have hlen := congrArg List.length hpath
    rw [List.length_append, List.length_append, List.length_drop, show srcDir.length = 5 from rfl] at hlen
    have hd : '0'.toUInt8 ∉ u := by
      intro hmem
      obtain ⟨a, b, rfl, hd⟩ := List.eq_append_cons_of_mem hmem
      have ha : a ++ ['0'.toUInt8] <+: path := by
        rw [hpath]
        exact ⟨b ++ srcDir ++ path.drop r, by simp⟩
      have hlt : count srcDir 0 a < 5 := hfirst.count_lt ((List.prefix_append a _).trans ha)
        (by rw [List.length_append, List.length_cons]; omega)
      obtain ⟨reads', hrun', -⟩ := fileStrip_digit (hfile.take ha) hd hlt dbg n
      have hmono := stripLoop_mono hrun (1 + a.length)
      rw [← Nat.add_assoc] at hmono
      cases hmono.symm.trans hrun'
      omega
    have hzero := count_eq_zero_of_found hfile hfirst hd hrun (by omega)
    refine .inr ⟨u, path.drop r, hfirst, (broken_iff (by decide)).2 hzero, hd, fun hhead => ?_⟩
    -- a digit behind the pattern ends the loop
    have hu : u ++ srcDir <+: path := ⟨path.drop r, hpath.symm⟩
    obtain ⟨reads', hrun', -⟩ := stripLoop_pattern (hfile.take hu) hd hzero dbg (n + 1)
    obtain ⟨v, hv⟩ : ∃ v, path.drop r = '0'.toUInt8 :: v := by
      cases hdrop : path.drop r with
      | nil =>
        rw [hdrop] at hhead
        cases hhead
      | cons c v =>
        rw [hdrop] at hhead
        exact ⟨v, by rw [Option.some.inj hhead]⟩
    have hchar : CharsAt file 0 (u ++ srcDir ++ ['0'.toUInt8]) :=
      hfile.take ⟨v, by rw [List.append_assoc, List.singleton_append, ← hv]; exact hpath.symm⟩
    obtain ⟨-, hlast⟩ := charsAt_append.1 hchar
    have hdigit : file (u.length + 5) = '0'.toUInt8 := by
      rw [Nat.zero_add, List.length_append] at hlast
      exact (charsAt_cons.1 hlast).1
    rw [stripLoop_digit hdigit] at hrun'
    have hmono := stripLoop_mono hrun (1 + 1 + (u.length + 4))
    rw [show n + (1 + 1 + (u.length + 4)) = n + 1 + 1 + (u.length + 4) by omega] at hmono
    cases hmono.symm.trans hrun'
    omega
  · refine .inl ⟨hno, ?_⟩
    by_contra hd
    have habsent : ¬ srcDir <:+: path := by
      rintro ⟨a, b, he⟩
      exact hno a b he.symm
    have hlt : count srcDir 0 path < 5 := Search.count_lt habsent
    have hnul : count srcDir 0 (path ++ [0]) = 0 := by
      rw [count_append]
      generalize count srcDir 0 path = k at hlt
      interval_cases k <;> rfl
    have hd' : '0'.toUInt8 ∉ path ++ [0] := by
      rw [List.mem_append]
      exact not_or.2 ⟨hd, by decide⟩
    obtain ⟨reads', hrun', -⟩ := stripLoop_run dbg hfile.chars hd' (Nat.zero_le 5) (by rw [hnul]; omega) n 0 []
    have hmono := stripLoop_mono hrun (path ++ [0]).length
    rw [hrun'] at hmono
    -- the byte behind the NUL is read
    obtain ⟨-, hmem, -⟩ := stripLoop_bounds (by rw [hnul]; omega) hmono
    have hlen : (path ++ [0]).length = path.length + 1 := List.length_append
    have := hreads _ hmem
    omega

/-- `_file_strip` does what it is for exactly on the paths of `StripOk`, in both builds and whatever is behind the path in
memory. -/
theorem file_strip_iff (hfile : PathAt file path) (dbg : Bool) : StripsWell dbg file path ↔ StripOk path :=
  ⟨fun h => h.ok hfile, fun h => h.strips hfile dbg⟩

/-- A path in a memory that is zero behind it. -/
def fileOf (path : List UInt8) : Nat → UInt8 := fun i => path.getD i 0

theorem fileOf_pathAt (h : 0 ∉ path) : PathAt (fileOf path) path := by
  refine ⟨fun i hi => ?_, h⟩
  have hle : i < path.length + 1 := by rwa [List.length_append] at hi
  rw [Nat.zero_add, fileOf, List.getD_eq_getElem?_getD]
  rcases (Nat.lt_succ_iff.1 hle).lt_or_eq with hlt | rfl
  · rw [List.getElem?_eq_getElem hlt, List.getElem_append_left hlt]
    rfl
  · rw [List.getElem?_eq_none le_rfl, List.getElem_append_right le_rfl]
    simp

theorem file_strip_iff_build : StripsWell true (fileOf (['/'.toUInt8, 'b'.toUInt8] ++ srcDir ++ ['a'.toUInt8]))
    (['/'.toUInt8, 'b'.toUInt8] ++ srcDir ++ ['a'.toUInt8]) :=
  (file_strip_iff (fileOf_pathAt (by decide)) true).2
    (.inr ⟨_, _, .of_absent (by decide) (by decide) _, (broken_iff (by decide)).2 rfl, by decide, by decide⟩)

/-- `/s/src/a`: the slash of `/src/` breaks off the first two characters, and is not taken for the start of the pattern. -/
def partialMatch : List UInt8 := ['/'.toUInt8, 's'.toUInt8] ++ srcDir ++ ['a'.toUInt8]

theorem file_strip_partial_match : ¬ StripsWell true (fileOf partialMatch) partialMatch ∧
    ¬ StripsWell false (fileOf partialMatch) partialMatch := by
  have hno : ¬ StripOk partialMatch := by
    rintro (⟨hno, -⟩ | ⟨u, v, hfirst, hbroken, -⟩)
    · exact hno _ _ rfl
    · obtain ⟨rfl, -⟩ := hfirst.unique (.of_absent (by decide) (by decide) _)
      exact absurd hbroken.count (by decide)
  have hfile : PathAt (fileOf partialMatch) partialMatch := fileOf_pathAt (by decide)
  exact ⟨fun h => hno (h.ok hfile), fun h => hno (h.ok hfile)⟩

end Cing.Log
