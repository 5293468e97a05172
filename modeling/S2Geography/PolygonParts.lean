import S2Geography.PreorderDepths
import S2Geography.TessellatingExporter

/-!
# The parts of an exported polygon

`handle_polygon` finds shells and holes by arithmetic on the indexes of the loops, through
their depths and `GetLastDescendant`. The parts it writes are the loops of even depth, each
with the loops of which it is the parent.
-/
namespace S2Geography.Exporter

open PreorderForest

/-! ### Loops by index -/

/-- The `while` loop of `GetLastDescendant`, over the loops from index `k` on. -/
def scanDescendants (depth : ℕ) : List StoredLoop → ℕ → ℕ
  | [], k => k
  | loop :: rest, k => if depth < loop.2 then scanDescendants depth rest (k + 1) else k

/-- `S2Polygon::GetLastDescendant` of a loop. -/
def getLastDescendant (loops : List StoredLoop) (k : ℕ) : ℕ :=
  scanDescendants (depthAt loops k) (loops.drop (k + 1)) (k + 1) - 1

/-- The `while` loop of `GetParent`, over the loops before index `k`. -/
def scanParent (loops : List StoredLoop) (depth : ℕ) : ℕ → ℤ
  | 0 => -1
  | k + 1 => if depthAt loops k ≥ depth then scanParent loops depth k else k

/-- `S2Polygon::GetParent`. -/
def getParent (loops : List StoredLoop) (k : ℕ) : ℤ :=
  if depthAt loops k = 0 then -1 else scanParent loops (depthAt loops k) k

/-- `poly.loop(k)`, for an index in range. -/
def loopAt (loops : List StoredLoop) (k : ℕ) : StoredLoop := loops.getD k ([], 0)

/-- `outer_shell_loop_ids`. -/
def outerShellLoopIds (loops : List StoredLoop) : List ℕ :=
  (List.range loops.length).filter fun i => depthAt loops i % 2 = 0

/-- The indexes that the loops over the holes of a shell go through. -/
def descendantIds (loops : List StoredLoop) (loopStart : ℕ) : List ℕ :=
  List.range' (loopStart + 1) (getLastDescendant loops loopStart - loopStart)

/-- The loops that `handle_shell` exports as holes of a shell. -/
def holeIds (loops : List StoredLoop) (loopStart : ℕ) : List ℕ :=
  (descendantIds loops loopStart).filter fun j => depthAt loops j = depthAt loops loopStart + 1

/-- `outer_shell_loop_sizes`. -/
def outerShellLoopSizes (loops : List StoredLoop) : List ℕ :=
  (outerShellLoopIds loops).map fun loopStart =>
    (descendantIds loops loopStart).foldl (fun numLoops j =>
      numLoops + (decide (depthAt loops j = depthAt loops loopStart + 1)).toNat) 1

theorem scanDescendants_eq (depth : ℕ) (xs : List StoredLoop) (k : ℕ) :
    scanDescendants depth xs k = k + (xs.takeWhile fun loop => depth < loop.2).length := by
  induction xs generalizing k with
  | nil => rfl
  | cons loop rest ih =>
    rw [scanDescendants]
    by_cases h : depth < loop.2
    · rw [if_pos h, ih, List.takeWhile_cons_of_pos (by simpa using h), List.length_cons]
      omega
    · rw [if_neg h, List.takeWhile_cons_of_neg (by simpa using h)]
      rfl

theorem lt_length_takeWhile_iff (depth : ℕ) (xs : List StoredLoop) (j : ℕ) :
    j < (xs.takeWhile fun loop => depth < loop.2).length ↔
      j < xs.length ∧ ∀ m ≤ j, depth < depthAt xs m := by
  induction xs generalizing j with
  | nil => simp
  | cons loop rest ih =>
    by_cases h : depth < loop.2
    · rw [List.takeWhile_cons_of_pos (by simpa using h), List.length_cons, List.length_cons]
      cases j with
      | zero => simpa using h
      | succ j =>
        rw [Nat.succ_lt_succ_iff, Nat.succ_lt_succ_iff, ih]
        refine and_congr_right fun _ => ⟨fun hrest m hm => ?_, fun hall m hm => ?_⟩
        · cases m with
          | zero => exact h
          | succ m => exact hrest m (by omega)
        · exact hall (m + 1) (by omega)
    · rw [List.takeWhile_cons_of_neg (by simpa using h)]
      refine ⟨fun hlt => absurd hlt (Nat.not_lt_zero j), fun ⟨_, hall⟩ => ?_⟩
      exact absurd (hall 0 (Nat.zero_le j)) h

theorem depthAt_drop (loops : List StoredLoop) (n k : ℕ) :
    depthAt (loops.drop n) k = depthAt loops (n + k) := by
  rw [depthAt, List.getElem?_drop, depthAt]

/-- `GetLastDescendant` ends the run of deeper loops after a loop. -/
theorem getLastDescendant_sub (loops : List StoredLoop) (i : ℕ) :
    getLastDescendant loops i - i =
      ((loops.drop (i + 1)).takeWhile fun loop => depthAt loops i < loop.2).length := by
  rw [getLastDescendant, scanDescendants_eq]
  omega

theorem mem_descendantIds_iff (loops : List StoredLoop) (i j : ℕ) :
    j ∈ descendantIds loops i ↔ j < loops.length ∧ IsDescendant (depthAt loops) i j := by
  rw [descendantIds, List.mem_range'_1, getLastDescendant_sub]
  have hiff := lt_length_takeWhile_iff (depthAt loops i) (loops.drop (i + 1)) (j - (i + 1))
  simp only [List.length_drop, depthAt_drop] at hiff
  constructor
  · rintro ⟨hlt, hle⟩
    obtain ⟨hlength, hdeeper⟩ := hiff.mp (by omega)
    refine ⟨by omega, by omega, fun m him hmj => ?_⟩
    have hm := hdeeper (m - (i + 1)) (by omega)
    rwa [Nat.add_sub_cancel' him] at hm
  · rintro ⟨hlength, hlt, hdeeper⟩
    have hlt' := hiff.mpr ⟨by omega, fun m hm => hdeeper (i + 1 + m) (by omega) (by omega)⟩
    omega

theorem scanParent_eq_iff (loops : List StoredLoop) (depth k i : ℕ) :
    scanParent loops depth k = i ↔
      i < k ∧ depthAt loops i < depth ∧ ∀ m, i < m → m < k → depth ≤ depthAt loops m := by
  induction k with
  | zero => simp [scanParent]
  | succ k ih =>
    rw [scanParent]
    by_cases h : depthAt loops k ≥ depth
    · rw [if_pos h, ih]
      constructor
      · rintro ⟨hlt, hdepth, hbetween⟩
        refine ⟨by omega, hdepth, fun m him hmk => ?_⟩
        rcases Nat.lt_or_eq_of_le (Nat.le_of_lt_succ hmk) with hmk | rfl
        · exact hbetween m him hmk
        · exact h
      · rintro ⟨hlt, hdepth, hbetween⟩
        have hne : i ≠ k := fun heq => absurd (heq ▸ hdepth) (not_lt_of_ge h)
        exact ⟨by omega, hdepth, fun m him hmk => hbetween m him (by omega)⟩
    · have hcast : (k : ℤ) = i ↔ k = i := by omega
      rw [if_neg h, hcast]
      constructor
      · rintro rfl
        exact ⟨Nat.lt_succ_self k, not_le.mp h, fun m him hmk => by omega⟩
      · rintro ⟨hlt, -, hbetween⟩
        by_contra hne
        exact h (hbetween k (by omega) (Nat.lt_succ_self k))

/-- `GetParent` finds the last loop before that is less deep. -/
theorem getParent_eq_iff (loops : List StoredLoop) (k i : ℕ) :
    getParent loops k = i ↔ IsParent (depthAt loops) i k := by
  unfold getParent
  split
  · next hzero =>
    refine ⟨fun h => by omega, fun h => ?_⟩
    have hdepth := h.depth_lt
    omega
  · rw [scanParent_eq_iff]
    exact ⟨fun ⟨hlt, hdepth, hbetween⟩ => ⟨hlt, hdepth, hbetween⟩,
      fun h => ⟨h.lt, h.depth_lt, h.between⟩⟩

theorem pairwise_holeIds (loops : List StoredLoop) (i : ℕ) :
    (holeIds loops i).Pairwise (· < ·) := List.Pairwise.filter _ List.pairwise_lt_range'

/-- The holes of a shell are the loops of which it is the parent. -/
theorem holeIds_eq {loops : List StoredLoop} (hloops : Forest.ValidDepths 0 loops) (i : ℕ) :
    holeIds loops i = (List.range loops.length).filter fun k => getParent loops k = i := by
  have hchildren : ((List.range loops.length).filter fun k => getParent loops k = i).Pairwise
      (· < ·) := List.Pairwise.filter _ List.pairwise_lt_range
  refine List.Perm.eq_of_pairwise (fun a b _ _ hab hba => absurd hab (lt_asymm hba))
    (pairwise_holeIds loops i) hchildren ?_
  refine (List.perm_ext_iff_of_nodup ((pairwise_holeIds loops i).imp ne_of_lt)
    (hchildren.imp ne_of_lt)).mpr fun k => ?_
  simp only [holeIds, List.mem_filter, mem_descendantIds_iff, List.mem_range, decide_eq_true_eq,
    getParent_eq_iff, isParent_iff hloops.depthAt_succ_le, and_assoc]

/-- The parts by the indexes of their rings: the loops of even depth in order, each with the
loops whose parent it is. -/
def polygonParts (loops : List StoredLoop) : List (List ℕ) :=
  (outerShellLoopIds loops).map fun i =>
    i :: (List.range loops.length).filter fun k => getParent loops k = i

/-- Every loop is in one part, once. -/
theorem flatten_polygonParts_perm {loops : List StoredLoop}
    (hloops : Forest.ValidDepths 0 loops) :
    (polygonParts loops).flatten.Perm (List.range loops.length) := by
  rw [polygonParts, ← List.flatMap_def]
  refine perm_range_of_isParent (Nat.le_zero.mp hloops.depthAt_zero_le) hloops.depthAt_succ_le
    loops.length (fun i => List.nodup_range.filter _) fun i _ k => ?_
  rw [List.mem_filter, List.mem_range, decide_eq_true_eq, getParent_eq_iff]

/-! ### The events -/

section Events

variable {σ : Type} (exporter : EdgeExporter σ)

/-- `handle_shell`, by the index of the shell. -/
def handleShellAt (geom : WkMeta) (loops : List StoredLoop) (loopStart : ℕ) : Emit σ :=
  (handleLoopShell exporter geom (loopAt loops loopStart)).append
    (.all ((holeIds loops loopStart).map fun j => handleLoopHole exporter geom (loopAt loops j)))

/-- A part, by the index of its shell and the number of its rings. -/
def handlePartAt (loops : List StoredLoop) (part : ℕ × ℕ) : Emit σ :=
  let geom := exporter.geom .polygon part.2
  geometry geom (handleShellAt exporter geom loops part.1)

/-- `handle_polygon`, by the indexes of the loops. -/
def handlePolygonAt (loops : List StoredLoop) : Emit σ :=
  match (outerShellLoopIds loops).zip (outerShellLoopSizes loops) with
  | [] => geometry (exporter.geom .polygon 0) .nothing
  | [part] => handlePartAt exporter loops part
  | parts =>
    geometry (exporter.geom .multipolygon (outerShellLoopIds loops).length)
      (.all (parts.map (handlePartAt exporter loops)))

/-- The events of a part over the indexes and events of its rings. -/
def partEvents (rings : List (ℕ × List WkEvent)) : List WkEvent :=
  let geom := exporter.geom .polygon rings.length
  .geometryStart geom :: (rings.flatMap Prod.snd ++ [.geometryEnd geom])

/-- The events of a polygon over its parts. -/
def polygonEvents : List (List (ℕ × List WkEvent)) → List WkEvent
  | [] => partEvents exporter []
  | [part] => partEvents exporter part
  | parts =>
    let geom := exporter.geom .multipolygon parts.length
    .geometryStart geom :: (parts.flatMap (partEvents exporter) ++ [.geometryEnd geom])

/-- The events of a ring: its start and end around what the exporter writes for the vertices
in order and the first of them again. -/
def RingOf (geom : WkMeta) : List S2Point → List WkEvent → Prop
  | [], es => es = [.error "Unexpected S2Loop with 0 vertices"]
  | vertex :: vertices, es => ∃ coords s s',
    (Emit.all ((vertex :: vertices).map (exporter.coordInSeries geom))).append
      (exporter.lastCoordInLoop geom vertex) (exporter.reset s) = .ok (coords, s') ∧
    (∀ e ∈ coords, ∃ coordGeom coord, e = .coord coordGeom coord) ∧
    es = .ringStart geom (some ((vertex :: vertices).length + 1)) ::
      (coords ++ [.ringEnd geom (some ((vertex :: vertices).length + 1))])

end Events

theorem foldl_toNat_eq (p : ℕ → Bool) (js : List ℕ) (n : ℕ) :
    js.foldl (fun numLoops j => numLoops + (p j).toNat) n = n + (js.filter p).length := by
  induction js generalizing n with
  | nil => rfl
  | cons j js ih =>
    rw [List.foldl_cons, ih]
    cases h : p j
    · simp [h]
    · simp only [h, Bool.toNat_true, List.filter_cons_of_pos, List.length_cons]
      omega

/-- The declared sizes are the numbers of rings. -/
theorem outerShellLoopSizes_eq (loops : List StoredLoop) :
    outerShellLoopSizes loops =
      (outerShellLoopIds loops).map fun i => 1 + (holeIds loops i).length :=
  List.map_congr_left fun i _ => foldl_toNat_eq _ (descendantIds loops i) 1

theorem zip_outerShellLoopSizes (loops : List StoredLoop) :
    (outerShellLoopIds loops).zip (outerShellLoopSizes loops) =
      (outerShellLoopIds loops).map fun i => (i, 1 + (holeIds loops i).length) := by
  have hzip : ((outerShellLoopIds loops).map fun i => i).zip
      ((outerShellLoopIds loops).map fun i => 1 + (holeIds loops i).length) = _ := List.zip_map'
  rwa [List.map_id', ← outerShellLoopSizes_eq] at hzip

/-! ### By index and by position -/

theorem loopAt_depth (loops : List StoredLoop) (k : ℕ) :
    (loopAt loops k).2 = depthAt loops k := by
  rw [loopAt, depthAt, List.getD_eq_getElem?_getD]
  cases loops[k]? <;> rfl

theorem outerShellLoopIds_cons (loop : StoredLoop) (rest : List StoredLoop) :
    outerShellLoopIds (loop :: rest) =
      (if loop.2 % 2 = 0 then [0] else []) ++ (outerShellLoopIds rest).map Nat.succ := by
  rw [outerShellLoopIds, List.length_cons, List.range_succ_eq_map, List.filter_cons,
    List.filter_map, depthAt_cons_zero]
  by_cases heven : loop.2 % 2 = 0
  · simp only [heven, decide_true, if_true]
    rfl
  · simp only [heven, decide_false, if_false, Bool.false_eq_true]
    rfl

theorem holeIds_cons_succ (loop : StoredLoop) (rest : List StoredLoop) (i : ℕ) :
    holeIds (loop :: rest) (i + 1) = (holeIds rest i).map Nat.succ := by
  have hlast : getLastDescendant (loop :: rest) (i + 1) - (i + 1) =
      getLastDescendant rest i - i := by
    rw [getLastDescendant_sub, getLastDescendant_sub]
    rfl
  rw [holeIds, descendantIds, hlast, List.range'_succ_left, List.filter_map]
  rfl

theorem map_loopAt_range (loops : List StoredLoop) {n : ℕ} (hn : n ≤ loops.length) :
    (List.range n).map (loopAt loops) = loops.take n := by
  induction loops generalizing n with
  | nil =>
    obtain rfl := Nat.le_zero.mp hn
    rfl
  | cons loop rest ih =>
    cases n with
    | zero => rfl
    | succ n =>
      rw [List.range_succ_eq_map, List.map_cons, List.map_map, List.take_succ_cons,
        ← ih (Nat.le_of_succ_le_succ hn)]
      rfl

/-- The holes by index are those that follow the shell. -/
theorem holeIds_cons_zero (loop : StoredLoop) (rest : List StoredLoop) :
    (holeIds (loop :: rest) 0).map (loopAt (loop :: rest)) = holes loop rest := by
  have hprefix := List.takeWhile_prefix (fun other : StoredLoop => loop.2 < other.2) (l := rest)
  have hids : descendantIds (loop :: rest) 0 =
      (List.range (rest.takeWhile fun other => loop.2 < other.2).length).map Nat.succ := by
    rw [descendantIds, getLastDescendant_sub, List.range'_succ_left, ← List.range_eq_range']
    rfl
  have hmap : (descendantIds (loop :: rest) 0).map (loopAt (loop :: rest)) =
      rest.takeWhile fun other => loop.2 < other.2 := by
    rw [hids, List.map_map]
    exact (map_loopAt_range rest hprefix.length_le).trans
      (List.prefix_iff_eq_take.mp hprefix).symm
  rw [holes, ← hmap, List.filter_map, holeIds]
  congr 1
  refine List.filter_congr fun j _ => ?_
  rw [Function.comp_apply, loopAt_depth]
  rfl

/-- The shells and holes by index are those by position. -/
theorem outerShells_eq (loops : List StoredLoop) :
    outerShells loops = (outerShellLoopIds loops).map fun i =>
      (loopAt loops i, (holeIds loops i).map (loopAt loops)) := by
  induction loops with
  | nil => rfl
  | cons loop rest ih =>
    rw [outerShells, outerShellLoopIds_cons, List.map_append, List.map_map]
    have hlater : (outerShellLoopIds rest).map ((fun i => (loopAt (loop :: rest) i,
        (holeIds (loop :: rest) i).map (loopAt (loop :: rest)))) ∘ Nat.succ) =
        outerShells rest := by
      rw [ih]
      refine List.map_congr_left fun i _ => ?_
      rw [Function.comp_apply, holeIds_cons_succ, List.map_map]
      rfl
    rw [hlater]
    by_cases heven : loop.2 % 2 = 0
    · rw [if_pos heven, if_pos heven, List.map_singleton, holeIds_cons_zero]
      rfl
    · rw [if_neg heven, if_neg heven]
      rfl

/-- Going by index, `handle_polygon` emits the same. -/
theorem handlePolygonAt_eq {σ : Type} (exporter : EdgeExporter σ) (loops : List StoredLoop) :
    handlePolygonAt exporter loops = handlePolygon exporter loops := by
  have hpart : ∀ i, handlePartAt exporter loops (i, 1 + (holeIds loops i).length) =
      handlePart exporter (loopAt loops i, (holeIds loops i).map (loopAt loops)) := by
    intro i
    rw [handlePart, handlePartAt, handleShell, handleShellAt, List.length_map, List.map_map]
    rfl
  rw [handlePolygonAt, handlePolygon, outerShells_eq, zip_outerShellLoopSizes]
  match outerShellLoopIds loops with
  | [] => rfl
  | [i] => exact hpart i
  | i :: i' :: ids =>
    have hparts : ((i :: i' :: ids).map fun i => (i, 1 + (holeIds loops i).length)).map
        (handlePartAt exporter loops) = ((i :: i' :: ids).map fun i =>
        (loopAt loops i, (holeIds loops i).map (loopAt loops))).map (handlePart exporter) := by
      rw [List.map_map, List.map_map]
      exact List.map_congr_left fun i _ => hpart i
    have hlength : ((i :: i' :: ids).map fun i =>
        (loopAt loops i, (holeIds loops i).map (loopAt loops))).length =
        (i :: i' :: ids).length := List.length_map _
    exact congrArg₂ (fun n parts => geometry (exporter.geom .multipolygon n) (Emit.all parts))
      hlength.symm hparts

/-! ### What is written -/

section Written

variable {σ : Type} {exporter : EdgeExporter σ}

/-- The emitter returns, having written coordinates only. -/
def OnlyCoords (emit : Emit σ) : Prop :=
  ∀ s, ∃ es s', emit s = .ok (es, s') ∧ ∀ e ∈ es, ∃ geom coord, e = .coord geom coord

/-- After a reset the calls of the exporter for a ring return, and write nothing but
coordinates. -/
def WritesCoords (exporter : EdgeExporter σ) : List S2Point → Prop
  | [] => True
  | vertex :: vertices => ∀ geom,
    OnlyCoords (afterReset exporter (ringSeries exporter geom vertex vertices))

/-- Exporters write coordinates wherever they can compute them. -/
theorem Renders.writesCoords {line ring : List S2Point → Except Fault (List WkCoord)}
    (h : Renders exporter line ring) {vertices : List S2Point} {coords : List WkCoord}
    (hring : ring vertices = .ok coords) : WritesCoords exporter vertices := by
  cases vertices with
  | nil => exact trivial
  | cons vertex vertices =>
    intro geom s
    have hwritten := h.ring geom vertex vertices s
    rw [hring] at hwritten
    obtain ⟨s', hrun⟩ := Emit.exists_of_written hwritten
    exact ⟨_, s', hrun, by simp⟩

theorem WritesVertices.writesCoords {coord : S2Point → WkCoord}
    (h : WritesVertices exporter coord) (vertices : List S2Point) :
    WritesCoords exporter vertices :=
  h.renders.writesCoords rfl

theorem writesCoords_tessellatingExporter {proj : S2Projection} (t : S2EdgeTessellator proj)
    (unset unset' : Double) {vertices : List S2Point}
    (h : edgesEnd t (closedRing vertices) = true) :
    WritesCoords (tessellatingExporter t unset unset') vertices := by
  by_cases hne : vertices = []
  · rw [hne]
    exact trivial
  · obtain ⟨points, hpoints, -⟩ := exists_drawnRing t unset unset' hne h
    exact (renders_tessellatingExporter t unset unset').writesCoords (congrArg _ hpoints)

theorem handleLoop_spec {vertices : List S2Point} (hexporter : WritesCoords exporter vertices)
    (geom : WkMeta) (s : σ) :
    ∃ es s', handleLoop exporter geom vertices s = .ok (es, s') ∧
      RingOf exporter geom vertices es := by
  cases vertices with
  | nil => exact ⟨_, s, rfl, rfl⟩
  | cons vertex vertices =>
    obtain ⟨coords, s', hrun, hcoords⟩ := hexporter geom s
    let size := some ((vertex :: vertices).length + 1)
    have hstart : Emit.event (.ringStart geom size) s = .ok ([.ringStart geom size], s) := rfl
    have hend : Emit.event (.ringEnd geom size) s' = .ok ([.ringEnd geom size], s') := rfl
    exact ⟨_, s', Emit.append_ok hstart (Emit.append_ok hrun hend), coords, s, s', hrun,
      hcoords, rfl⟩

/-- A list of emitters that each write something of a kind writes a list of them. -/
theorem exists_all {α β γ : Type} {f : α → Emit σ} (events : β → List WkEvent) (label : β → γ)
    (asked : α → γ) {P : β → Prop} (as : List α)
    (h : ∀ a ∈ as, ∀ s, ∃ b s', f a s = .ok (events b, s') ∧ label b = asked a ∧ P b) (s : σ) :
    ∃ (bs : List β) (s' : σ), Emit.all (as.map f) s = .ok (bs.flatMap events, s') ∧
      bs.map label = as.map asked ∧ ∀ b ∈ bs, P b := by
  induction as generalizing s with
  | nil => exact ⟨[], s, rfl, rfl, by simp⟩
  | cons a as ih =>
    obtain ⟨b, s', hrun, hlabel, hb⟩ := h a List.mem_cons_self s
    obtain ⟨bs, s'', hruns, hlabels, hbs⟩ := ih (fun a ha => h a (List.mem_cons_of_mem _ ha)) s'
    refine ⟨b :: bs, s'', Emit.append_ok hrun hruns, by simp [hlabel, hlabels], ?_⟩
    simpa using ⟨hb, hbs⟩

/-- A part writes its shell and its holes as rings, as many as it declares. -/
theorem handlePartAt_spec {loops : List StoredLoop}
    (hexporter : ∀ k, WritesCoords exporter (orientedLoop (loopAt loops k))) {i : ℕ}
    (heven : depthAt loops i % 2 = 0) (s : σ) :
    ∃ rings s', handlePartAt exporter loops (i, 1 + (holeIds loops i).length) s =
        .ok (partEvents exporter rings, s') ∧
      rings.map Prod.fst = i :: holeIds loops i ∧
      ∀ ring ∈ rings, RingOf exporter (exporter.geom .polygon rings.length)
        (orientedLoop (loopAt loops ring.1)) ring.2 := by
  let geom := exporter.geom .polygon (1 + (holeIds loops i).length)
  have hshellLoop : orientedLoop (loopAt loops i) = (loopAt loops i).1 :=
    if_pos (by rw [loopAt_depth]; exact heven)
  obtain ⟨shell, s', hshell, hring⟩ := handleLoop_spec (hshellLoop ▸ hexporter i) geom s
  have hhole : ∀ j ∈ holeIds loops i, ∀ s, ∃ (ring : ℕ × List WkEvent) (s' : σ),
      handleLoopHole exporter geom (loopAt loops j) s = .ok (ring.2, s') ∧ ring.1 = j ∧
        RingOf exporter geom (orientedLoop (loopAt loops ring.1)) ring.2 := by
    intro j hj s
    have hdepth : depthAt loops j = depthAt loops i + 1 := by simpa using (List.mem_filter.mp hj).2
    have hodd : ¬(loopAt loops j).2 % 2 = 0 := by
      rw [loopAt_depth]
      omega
    have hholeLoop : orientedLoop (loopAt loops j) = (loopAt loops j).1.reverse := if_neg hodd
    obtain ⟨es, s', hrun, hring⟩ := handleLoop_spec (hholeLoop ▸ hexporter j) geom s
    refine ⟨(j, es), s', hrun, rfl, ?_⟩
    rwa [hholeLoop]
  obtain ⟨holes, s'', hholes, hids, hrings⟩ :=
    exists_all Prod.snd Prod.fst id (holeIds loops i) hhole s'
  rw [List.map_id] at hids
  have hlength : ((i, shell) :: holes).length = 1 + (holeIds loops i).length := by
    rw [← hids, List.length_map, List.length_cons, Nat.add_comm]
  refine ⟨(i, shell) :: holes, s'', ?_, by rw [List.map_cons, hids], ?_⟩
  · rw [partEvents, hlength]
    exact geometry_ok (Emit.append_ok hshell hholes)
  · rw [hlength]
    intro ring hmem
    rcases List.mem_cons.mp hmem with rfl | hmem
    · rw [hshellLoop]
      exact hring
    · exact hrings ring hmem

/-- A polygon writes its shells as parts, as many as it declares. -/
theorem handlePolygonAt_spec {loops : List StoredLoop}
    (hexporter : ∀ k, WritesCoords exporter (orientedLoop (loopAt loops k))) (s : σ) :
    ∃ (written : List (List (ℕ × List WkEvent))) (s' : σ),
      handlePolygonAt exporter loops s = .ok (polygonEvents exporter written, s') ∧
      written.map (List.map Prod.fst) =
        (outerShellLoopIds loops).map (fun i => i :: holeIds loops i) ∧
      ∀ part ∈ written, ∀ ring ∈ part, RingOf exporter (exporter.geom .polygon part.length)
        (orientedLoop (loopAt loops ring.1)) ring.2 := by
  have hpart := fun i (hi : i ∈ outerShellLoopIds loops) =>
    handlePartAt_spec hexporter (of_decide_eq_true (List.mem_filter.mp hi).2)
  rw [handlePolygonAt, zip_outerShellLoopSizes]
  generalize outerShellLoopIds loops = ids at hpart ⊢
  match ids with
  | [] =>
    have hnothing : geometry (exporter.geom .polygon 0) .nothing s = _ := geometry_ok rfl
    exact ⟨[], s, hnothing, rfl, by simp⟩
  | [i] =>
    obtain ⟨part, s', hrun, hids, hrings⟩ := hpart i List.mem_cons_self s
    exact ⟨[part], s', hrun, by simp [hids], by simpa using hrings⟩
  | i :: i' :: ids =>
    obtain ⟨written, s', hrun, hids, hrings⟩ := exists_all (partEvents exporter)
      (List.map Prod.fst) (fun i => i :: holeIds loops i) (i :: i' :: ids) hpart s
    have hlength : written.length = (i :: i' :: ids).length := by
      simpa using congrArg List.length hids
    have hevents : polygonEvents exporter written =
        .geometryStart (exporter.geom .multipolygon (i :: i' :: ids).length) ::
          (written.flatMap (partEvents exporter) ++
            [.geometryEnd (exporter.geom .multipolygon (i :: i' :: ids).length)]) := by
      match written, hlength with
      | part :: part' :: parts, hlength =>
        rw [← hlength]
        rfl
    have hall : Emit.all (((i :: i' :: ids).map fun i => (i, 1 + (holeIds loops i).length)).map
        (handlePartAt exporter loops)) s = .ok (written.flatMap (partEvents exporter), s') := by
      rw [List.map_map]
      exact hrun
    refine ⟨written, s', ?_, hids, hrings⟩
    rw [hevents]
    exact geometry_ok hall

/-- `handle_polygon` writes every loop once: a part for each loop of even depth, which is its
first ring, followed by the loops of odd depth whose parent it is; and as many parts and
rings as it declares. -/
def WritesParts (exporter : EdgeExporter σ) (loops : List StoredLoop) (s : σ) : Prop :=
  ∃ (written : List (List (ℕ × List WkEvent))) (s' : σ),
    handlePolygonAt exporter loops s = .ok (polygonEvents exporter written, s') ∧
    written.map (List.map Prod.fst) = polygonParts loops ∧
    (polygonParts loops).flatten.Perm (List.range loops.length) ∧
    (∀ k < loops.length, depthAt loops k % 2 = 1 → ∃ i < k, getParent loops k = i ∧
      depthAt loops k = depthAt loops i + 1 ∧
      i :: (List.range loops.length).filter (fun k => getParent loops k = i) ∈
        polygonParts loops) ∧
    ∀ part ∈ written, ∀ ring ∈ part, RingOf exporter (exporter.geom .polygon part.length)
      (orientedLoop (loopAt loops ring.1)) ring.2

/-- The loops of a valid preorder are written as parts, if the exporter can write each of them. -/
theorem handlePolygonAt_parts {loops : List StoredLoop}
    (hexporter : ∀ loop ∈ loops, WritesCoords exporter (orientedLoop loop))
    (hloops : Forest.ValidDepths 0 loops) (s : σ) : WritesParts exporter loops s := by
  have hloopAt : ∀ k, WritesCoords exporter (orientedLoop (loopAt loops k)) := by
    intro k
    rw [loopAt]
    by_cases hk : k < loops.length
    · rw [List.getD_eq_getElem _ _ hk]
      exact hexporter _ (List.getElem_mem hk)
    · rw [List.getD_eq_default _ _ (Nat.le_of_not_lt hk)]
      exact trivial
  obtain ⟨written, s', hrun, hids, hrings⟩ := handlePolygonAt_spec hloopAt s
  have hparts : polygonParts loops = (outerShellLoopIds loops).map fun i => i :: holeIds loops i :=
    List.map_congr_left fun i _ => congrArg (i :: ·) (holeIds_eq hloops i).symm
  refine ⟨written, s', hrun, hids.trans hparts.symm, flatten_polygonParts_perm hloops, ?_, hrings⟩
  intro k hk hodd
  obtain ⟨i, hparent⟩ := exists_isParent (Nat.le_zero.mp hloops.depthAt_zero_le)
    (k := k) (show depthAt loops k ≠ 0 by omega)
  have hdepth := ((isParent_iff hloops.depthAt_succ_le).mp hparent).2
  refine ⟨i, hparent.lt, (getParent_eq_iff loops k i).mpr hparent, hdepth, ?_⟩
  refine List.mem_map_of_mem (List.mem_filter.mpr ⟨List.mem_range.mpr (hparent.lt.trans hk), ?_⟩)
  exact decide_eq_true (by omega)

/-- Two roots; the first with a hole, an island in the hole, a hole in the island, and
another hole. -/
def nestedLoops : List StoredLoop :=
  [([axisX, axisY, axisZ], 0), ([axisX, axisZ, axisY], 1), ([axisX, axisY, axisZ], 2),
    ([axisX, axisZ, axisY], 3), ([axisX, axisY, axisZ], 1), ([axisX, axisY, axisZ], 0)]

example : polygonParts nestedLoops = [[0, 1, 4], [2, 3], [5]] := by decide

theorem edgesEnd_nestedLoops : ∀ loop ∈ nestedLoops,
    edgesEnd flatTessellator (closedRing (orientedLoop loop)) = true := by
  decide

theorem validDepths_nestedLoops : Forest.ValidDepths 0 nestedLoops := by
  simp [Forest.ValidDepths, nestedLoops]

theorem handlePolygonAt_parts_nested :
    WritesParts (s2Exporter .zero) nestedLoops () ∧
      WritesParts (simpleExporter flatProjection.project .zero .zero) nestedLoops () ∧
      WritesParts (tessellatingExporter flatTessellator .zero .zero) nestedLoops
        ⟨true, axisX, axisX, []⟩ :=
  ⟨handlePolygonAt_parts
      (fun _ _ => (writesVertices_s2Exporter .zero).writesCoords _) validDepths_nestedLoops (),
    handlePolygonAt_parts
      (fun _ _ => (writesVertices_simpleExporter .zero .zero _).writesCoords _)
      validDepths_nestedLoops (),
    handlePolygonAt_parts
      (fun loop hloop => writesCoords_tessellatingExporter flatTessellator .zero .zero
        (edgesEnd_nestedLoops loop hloop))
      validDepths_nestedLoops ⟨true, axisX, axisX, []⟩⟩

end Written

end S2Geography.Exporter
