import EDDTs.Boards.Resm
import EDDTs.Library.Hex
import EDDTs.Pan.CLibrary

/-!
# The gateway of the ethernet test

`getgatewayandiface` reads `/proc/net/route` line by line and takes the first line whose second
column is zero for the default route.
-/

namespace EDDTs.Beaglebone

open Library Pan Boards

/-! ### Scanning a line -/

/-- The digits of `%lx` at the beginning of a text: their value, if there are any, and the text
behind them. -/
def scanDigits (t : Text) : Option (ℕ × Text) :=
  if t.takeWhile isHexDigit = [] then none
  else some (min (hexValue (t.takeWhile isHexDigit)) (2 ^ 32 - 1), t.dropWhile isHexDigit)

/-- `0x` may precede the digits. -/
def scanUnsigned : Text → Option (ℕ × Text)
  | '0' :: x :: t => if x = 'x' ∨ x = 'X' then scanDigits t else scanDigits ('0' :: x :: t)
  | t => scanDigits t

/-- `%lx`, where a `long` has 32 bits. -/
def scanHex (t : Text) : Option (ℕ × Text) :=
  match t.dropWhile isspace with
  | '-' :: u => (scanUnsigned u).map fun r => ((2 ^ 32 - r.1) % 2 ^ 32, r.2)
  | '+' :: u => scanUnsigned u
  | u => scanUnsigned u

/-- `sscanf(buf, "%s %lx %lx", …)`, if it makes its three conversions. What fewer conversions
store is overwritten before it is used. -/
def sscanfRoute (buf : Text) : Option (Text × ℕ × ℕ) :=
  let t := buf.dropWhile isspace
  let iface := t.takeWhile fun c => !isspace c
  if iface = [] then none
  else
    (scanHex (t.dropWhile fun c => !isspace c)).bind fun (destination, t) =>
      (scanHex t).map fun (gateway, _) => (iface, destination, gateway)

/-! ### The search -/

/-- `BUFFER_SIZE` -/
def bufferSize : ℕ := 4096

/-- The loop over the lines, which reads at least one character in each pass. -/
def findRoute : ℕ → Text → Option (UInt32 × Text)
  | 0, _ => none
  | _ + 1, [] => none
  | fuel + 1, c :: rest =>
      let line := fgets (bufferSize - 1) (c :: rest)
      match sscanfRoute (cString line.1) with
      | some (iface, destination, gateway) =>
          if destination = 0 then some (UInt32.ofNat gateway, iface) else findRoute fuel line.2
      | none => findRoute fuel line.2

/-- `getgatewayandiface`, with the content of `/proc/net/route` if it can be opened: the gateway
and the interface, or the message of `tst_brkm`. -/
def getgatewayandiface (file : Option Text) : Except Message (UInt32 × Text) :=
  match file with
  | none => .error ⟨.fail, txt "/proc/net/route open failed", false⟩
  | some t =>
      match findRoute t.length t with
      | some found => .ok found
      | none => .error ⟨.fail, txt "Gateway test Failed", false⟩

/-! ### The format of the table -/

/-- A route, with a name that an interface can have. -/
structure Route where
  iface : Text
  destination : UInt32
  gateway : UInt32
  flags : UInt16
  refcnt : Int32
  use : UInt32
  metric : Int32
  mask : UInt32
  mtu : Int32
  window : UInt32
  irtt : UInt32
  iface_ne : iface ≠ []
  iface_short : iface.length < 16
  iface_plain : ∀ c ∈ iface, isspace c = false ∧ c ≠ '\x00'

/-- The columns of a route after the name of the interface. -/
def Route.columns (r : Route) : List Text :=
  [hexText 8 r.destination.toNat, hexText 8 r.gateway.toNat, hexText 4 r.flags.toNat,
    intText r.refcnt.toInt, natText r.use.toNat, intText r.metric.toInt, hexText 8 r.mask.toNat,
    intText r.mtu.toInt, natText r.window.toNat, natText r.irtt.toNat]

/-- A line of the table: columns separated by tabs, padded to 127 characters. -/
def Route.line (r : Route) : Text :=
  padRight 127 (r.iface ++ r.columns.flatMap fun column => '\t' :: column)

def headerLine : Text :=
  padRight 127 (txt ("Iface\tDestination\tGateway \tFlags\tRefCnt\tUse\tMetric\tMask\t\tMTU" ++
    "\tWindow\tIRTT"))

/-- `/proc/net/route` -/
def routeTable (routes : List Route) : Text :=
  headerLine ++ '\n' :: routes.flatMap fun r => r.line ++ ['\n']

/-- A default route. -/
def Route.IsDefault (r : Route) : Prop := r.destination = 0 ∧ r.mask = 0

instance (r : Route) : Decidable r.IsDefault := inferInstanceAs (Decidable (_ ∧ _))

/-- The interface and gateway of the first default route, or the message of a failure. -/
def defaultRoute (routes : List Route) : Except Message (UInt32 × Text) :=
  match routes.find? fun r => r.IsDefault with
  | some r => .ok (r.gateway, r.iface)
  | none => .error ⟨.fail, txt "Gateway test Failed", false⟩

/-! ### Scanning the lines of the table -/

section Scan

theorem isspace_of_hex {c : Char} (h : isHexDigit c = true) : isspace c = false := by
  by_contra hspace
  have hmem : c ∈ [' ', '\t', '\n', '\x0b', '\x0c', '\r'] :=
    of_decide_eq_true (eq_true_of_ne_false hspace)
  have hnone : ∀ d ∈ [' ', '\t', '\n', '\x0b', '\x0c', '\r'], isHexDigit d = false := by decide
  rw [hnone c hmem] at h
  cases h

theorem scanDigits_hexText {w n : ℕ} (hw : 0 < w) (hn : n < 16 ^ w) (hlong : n < 2 ^ 32)
    {c : Char} (hc : isHexDigit c = false) (t : Text) :
    scanDigits (hexText w n ++ c :: t) = some (n, c :: t) := by
  have hdigits : ∀ d ∈ hexText w n, isHexDigit d = true := fun d hd => isHexDigit_of_mem_hexText hd
  have htake : (hexText w n ++ c :: t).takeWhile isHexDigit = hexText w n := by
    rw [List.takeWhile_append_of_pos hdigits, List.takeWhile_cons_of_neg (by simp [hc]),
      List.append_nil]
  have hdrop : (hexText w n ++ c :: t).dropWhile isHexDigit = c :: t := by
    rw [List.dropWhile_append_of_pos hdigits, List.dropWhile_cons_of_neg (by simp [hc])]
  have hne : hexText w n ≠ [] := List.ne_nil_of_length_pos (by rwa [length_hexText])
  rw [scanDigits, htake, hdrop, if_neg hne, hexValue_hexText hn, Nat.min_eq_left (by omega)]

/-- Digits are not taken for a prefix or a sign. -/
theorem scanHex_tab {ds t : Text} (hlen : 2 ≤ ds.length) (hdigits : ∀ d ∈ ds, isHexDigit d = true) :
    scanHex ('\t' :: (ds ++ t)) = scanDigits (ds ++ t) := by
  obtain ⟨a, b, rest, rfl⟩ : ∃ a b rest, ds = a :: b :: rest := by
    match ds, hlen with
    | a :: b :: rest, _ => exact ⟨a, b, rest, rfl⟩
  have ha := hdigits a (by simp)
  have hb := hdigits b (by simp)
  have hspace : ('\t' :: (a :: b :: rest ++ t)).dropWhile isspace = a :: b :: rest ++ t := by
    rw [List.dropWhile_cons_of_pos (by decide), List.cons_append,
      List.dropWhile_cons_of_neg (by simp [isspace_of_hex ha])]
  have hsign : ∀ d, isHexDigit d = false → a ≠ d := by
    rintro d hd rfl
    rw [hd] at ha
    cases ha
  rw [scanHex, hspace]
  split
  next u hu => exact absurd (List.cons.inj hu).1 (hsign '-' (by decide))
  next u hu => exact absurd (List.cons.inj hu).1 (hsign '+' (by decide))
  next =>
    rw [List.cons_append, List.cons_append]
    unfold scanUnsigned
    split
    next x u hu =>
      obtain ⟨rfl, hu'⟩ := List.cons.inj hu
      obtain ⟨rfl, rfl⟩ := List.cons.inj hu'
      apply if_neg
      rintro (rfl | rfl)
      · exact absurd hb (by decide)
      · exact absurd hb (by decide)
    next => rfl

/-- A column of eight digits is read as the number that it shows. -/
theorem scanHex_column (x : UInt32) (t : Text) :
    scanHex ('\t' :: (hexText 8 x.toNat ++ '\t' :: t)) = some (x.toNat, '\t' :: t) := by
  have hx := x.toNat_lt
  rw [scanHex_tab (by rw [length_hexText]; decide) fun d hd => isHexDigit_of_mem_hexText hd]
  exact scanDigits_hexText (by decide) (by simpa using hx) hx (by decide) t

/-- The first three columns of a route are read. -/
theorem sscanfRoute_columns (r : Route) {t : Text}  (tail : Text)
    (ht : t = r.iface ++ ('\t' :: (hexText 8 r.destination.toNat ++
      '\t' :: (hexText 8 r.gateway.toNat ++ '\t' :: tail)))) :
    sscanfRoute t = some (r.iface, r.destination.toNat, r.gateway.toNat) := by
  have hplain : ∀ c ∈ r.iface, (!isspace c) = true := by
    intro c hc
    rw [(r.iface_plain c hc).1]
    rfl
  obtain ⟨a, rest, ha⟩ := List.exists_cons_of_ne_nil r.iface_ne
  have hfirst : isspace a = false := (r.iface_plain a (by simp [ha])).1
  have hstart : t.dropWhile isspace = t := by
    rw [ht, ha, List.cons_append, List.dropWhile_cons_of_neg (by simp [hfirst])]
  have htake : t.takeWhile (fun c => !isspace c) = r.iface := by
    rw [ht, List.takeWhile_append_of_pos hplain, List.takeWhile_cons_of_neg (by decide),
      List.append_nil]
  have hdrop : t.dropWhile (fun c => !isspace c) = '\t' :: (hexText 8 r.destination.toNat ++
      '\t' :: (hexText 8 r.gateway.toNat ++ '\t' :: tail)) := by
    rw [ht, List.dropWhile_append_of_pos hplain, List.dropWhile_cons_of_neg (by decide)]
  simp only [sscanfRoute, hstart, htake, hdrop, if_neg r.iface_ne, scanHex_column,
    Option.bind_some, Option.map_some]

end Scan

section Table

/-- A character that can stand in a line of the table. -/
def Plain (c : Char) : Prop := c ≠ '\n' ∧ c ≠ '\x00'

theorem plain_of_hex {c : Char} (h : isHexDigit c = true) : Plain c := by
  constructor <;> (rintro rfl; exact absurd h (by decide))

theorem plain_of_isDigit {c : Char} (h : c.isDigit = true) : Plain c := by
  constructor <;> (rintro rfl; exact absurd h (by decide))

/-- A column of the table is short and plain. -/
structure IsColumn (t : Text) : Prop where
  plain : ∀ c ∈ t, Plain c
  short : t.length ≤ 11

theorem isColumn_hexText {w : ℕ} (hw : w ≤ 11) (n : ℕ) : IsColumn (hexText w n) :=
  ⟨fun _ hc => plain_of_hex (isHexDigit_of_mem_hexText hc), by rwa [length_hexText]⟩

theorem length_natText_le {n : ℕ} (h : n < 10 ^ 10) : (natText n).length ≤ 10 :=
  (Nat.length_toDigits_le_iff (by decide) (by decide)).mpr h

theorem isColumn_natText (x : UInt32) : IsColumn (natText x.toNat) := by
  have hx := x.toNat_lt
  refine ⟨fun _ hc => plain_of_isDigit (isDigit_of_mem_natText hc), ?_⟩
  exact (length_natText_le (by omega)).trans (by decide)

theorem isColumn_intText (x : Int32) : IsColumn (intText x.toInt) := by
  have hlow := x.le_toInt
  have hhigh := x.toInt_lt
  constructor
  · intro c hc
    rcases isDigit_of_mem_intText hc with rfl | hdigit
    · exact ⟨by decide, by decide⟩
    · exact plain_of_isDigit hdigit
  · cases hx : x.toInt with
    | ofNat n =>
        rw [hx, Int.ofNat_eq_natCast] at hhigh
        exact (length_natText_le (n := n) (by omega)).trans (by decide)
    | negSucc n =>
        rw [hx] at hlow
        exact Nat.succ_le_succ (length_natText_le (n := n + 1) (by omega))

theorem isColumn_columns (r : Route) : ∀ t ∈ r.columns, IsColumn t := by
  simp only [Route.columns, List.forall_mem_cons]
  exact ⟨isColumn_hexText (by decide) _, isColumn_hexText (by decide) _,
    isColumn_hexText (by decide) _, isColumn_intText _, isColumn_natText _, isColumn_intText _,
    isColumn_hexText (by decide) _, isColumn_intText _, isColumn_natText _, isColumn_natText _,
    nofun⟩

theorem plain_padRight {n : ℕ} {t : Text} (h : ∀ c ∈ t, Plain c) : ∀ c ∈ padRight n t, Plain c := by
  intro c hc
  rcases List.mem_append.mp hc with hmem | hmem
  · exact h c hmem
  · rw [List.eq_of_mem_replicate hmem]
    exact ⟨by decide, by decide⟩

theorem length_padRight (n : ℕ) (t : Text) : (padRight n t).length = max n t.length := by
  rw [padRight, List.length_append, List.length_replicate]
  omega

/-- A line of the table fits into the buffer and is one line. -/
theorem Route.line_plain (r : Route) :
    (∀ c ∈ r.line, Plain c) ∧ r.line.length < bufferSize - 1 := by
  have hcolumns := isColumn_columns r
  constructor
  · apply plain_padRight
    intro c hc
    rcases List.mem_append.mp hc with hname | hmem
    · obtain ⟨hspace, hnul⟩ := r.iface_plain c hname
      refine ⟨?_, hnul⟩
      rintro rfl
      cases hspace
    · obtain ⟨t, ht, hc⟩ := List.mem_flatMap.mp hmem
      rcases List.mem_cons.mp hc with rfl | hc
      · exact ⟨by decide, by decide⟩
      · exact (hcolumns t ht).plain c hc
  · have hlength : (r.columns.flatMap fun column => '\t' :: column).length ≤ 120 := by
      have hsum : ∀ l : List Text, (∀ t ∈ l, IsColumn t) →
          (l.flatMap fun column => '\t' :: column).length ≤ 12 * l.length := by
        intro l hl
        induction l with
        | nil => exact Nat.le_refl 0
        | cons t rest ih =>
            have ht := (hl t List.mem_cons_self).short
            have hrest := ih fun u hu => hl u (List.mem_cons_of_mem t hu)
            rw [List.flatMap_cons, List.length_append, List.length_cons, List.length_cons]
            omega
      exact hsum r.columns hcolumns
    have hname := r.iface_short
    rw [Route.line, length_padRight, List.length_append, bufferSize]
    omega

theorem headerLine_plain : (∀ c ∈ headerLine, Plain c) ∧ headerLine.length < bufferSize - 1 := by
  unfold Plain
  decide +kernel

/-- A line that is short and plain is what one pass of the loop scans. -/
theorem findRoute_line {l : Text} (h : (∀ c ∈ l, Plain c) ∧ l.length < bufferSize - 1) (fuel : ℕ)
    (t : Text) :
    findRoute (fuel + 1) (l ++ '\n' :: t) =
      match sscanfRoute (l ++ ['\n']) with
      | some (iface, destination, gateway) =>
          if destination = 0 then some (UInt32.ofNat gateway, iface) else findRoute fuel t
      | none => findRoute fuel t := by
  have hnul : '\x00' ∉ l ++ ['\n'] := by
    rw [List.mem_append, List.mem_singleton]
    rintro (hmem | hmem)
    · exact (h.1 _ hmem).2 rfl
    · cases hmem
  have hfgets := fgets_line (fun hmem => (h.1 _ hmem).1 rfl) h.2 t
  obtain ⟨c, rest, hcons⟩ : ∃ c rest, l ++ '\n' :: t = c :: rest :=
    List.exists_cons_of_ne_nil (by simp)
  rw [hcons] at hfgets ⊢
  rw [findRoute, hfgets, cString_eq hnul]

theorem sscanfRoute_line (r : Route) :
    sscanfRoute (r.line ++ ['\n']) = some (r.iface, r.destination.toNat, r.gateway.toNat) := by
  apply sscanfRoute_columns
  rw [Route.line, padRight, Route.columns, List.flatMap_cons, List.flatMap_cons, List.flatMap_cons]
  simp only [List.append_assoc, List.cons_append]
  rfl

theorem sscanfRoute_header : sscanfRoute (headerLine ++ ['\n']) = none := by
  decide +kernel

/-- The loop stops at the first route with destination 0. -/
theorem findRoute_routes (routes : List Route) {fuel : ℕ} (hfuel : routes.length ≤ fuel) :
    findRoute fuel (routes.flatMap fun r => r.line ++ ['\n']) =
      (routes.find? fun r => r.destination = 0).map fun r => (r.gateway, r.iface) := by
  induction routes generalizing fuel with
  | nil => cases fuel <;> rfl
  | cons r rest ih =>
      obtain ⟨fuel, rfl⟩ := Nat.exists_eq_succ_of_ne_zero (Nat.ne_of_gt (Nat.zero_lt_of_lt hfuel))
      have hrest := ih (Nat.le_of_succ_le_succ hfuel)
      rw [List.flatMap_cons, List.append_assoc, List.singleton_append, findRoute_line r.line_plain,
        sscanfRoute_line]
      by_cases hzero : r.destination = 0
      · rw [List.find?_cons_of_pos (by simpa using hzero)]
        simp [hzero]
      · have hne : r.destination.toNat ≠ 0 := fun h => hzero (UInt32.toNat_inj.mp h)
        rw [List.find?_cons_of_neg (by simpa using hzero)]
        simp only [hne, if_false]
        exact hrest

theorem getgatewayandiface_routeTable (routes : List Route) :
    getgatewayandiface (some (routeTable routes)) =
      match routes.find? fun r => r.destination = 0 with
      | some r => .ok (r.gateway, r.iface)
      | none => .error ⟨.fail, txt "Gateway test Failed", false⟩ := by
  have hlength : (routeTable routes).length =
      headerLine.length + ((routes.flatMap fun r => r.line ++ ['\n']).length + 1) := by
    rw [routeTable, List.length_append, List.length_cons]
  have hlines : ∀ l : List Route, l.length ≤ (l.flatMap fun r => r.line ++ ['\n']).length := by
    intro l
    induction l with
    | nil => exact Nat.le_refl 0
    | cons r rest ih =>
        rw [List.flatMap_cons, List.length_append, List.length_append, List.length_cons,
          List.length_singleton]
        omega
  obtain ⟨fuel, hfuel⟩ := Nat.exists_eq_succ_of_ne_zero
    (show (routeTable routes).length ≠ 0 by rw [hlength]; omega)
  have henough : routes.length ≤ fuel := by
    have := hlines routes
    omega
  have hfound : findRoute (routeTable routes).length (routeTable routes) =
      (routes.find? fun r => r.destination = 0).map fun r => (r.gateway, r.iface) := by
    rw [hfuel, routeTable, findRoute_line headerLine_plain, sscanfRoute_header]
    exact findRoute_routes routes henough
  simp only [getgatewayandiface, hfound]
  cases routes.find? fun r => r.destination = 0 <;> rfl

end Table

/-- The search finds the first default route exactly when the first route with destination 0 has
the interface and gateway of the first default route. -/
theorem getgatewayandiface_default_iff (routes : List Route) :
    getgatewayandiface (some (routeTable routes)) = defaultRoute routes ↔
      ∀ r, routes.find? (fun r => r.destination = 0) = some r →
        ∃ d, routes.find? (fun r => r.IsDefault) = some d ∧
          d.iface = r.iface ∧ d.gateway = r.gateway := by
  rw [getgatewayandiface_routeTable, defaultRoute]
  cases hfirst : routes.find? fun r => r.destination = 0 with
  | none =>
      -- without a route to 0 there is no default route
      have hnone : routes.find? (fun r => r.IsDefault) = none := by
        rw [List.find?_eq_none] at hfirst ⊢
        intro r hr
        have hne := hfirst r hr
        simp only [decide_eq_true_eq] at hne ⊢
        exact fun hdefault => hne hdefault.1
      rw [hnone]
      exact iff_of_true rfl nofun
  | some r =>
      have honly : (∀ r', some r = some r' → ∃ d, routes.find? (fun r => r.IsDefault) = some d ∧
          d.iface = r'.iface ∧ d.gateway = r'.gateway) ↔
          ∃ d, routes.find? (fun r => r.IsDefault) = some d ∧
            d.iface = r.iface ∧ d.gateway = r.gateway :=
        ⟨fun h => h r rfl, fun h r' hr' => Option.some.inj hr' ▸ h⟩
      rw [honly]
      cases hdefault : routes.find? fun r => r.IsDefault with
      | none => exact iff_of_false nofun fun h => by simp at h
      | some d =>
          simp only [Except.ok.injEq, Prod.mk.injEq, Option.some.injEq, exists_eq_left']
          constructor
          · rintro ⟨hgateway, hiface⟩
            exact ⟨hiface.symm, hgateway.symm⟩
          · rintro ⟨hiface, hgateway⟩
            exact ⟨hgateway.symm, hiface.symm⟩

/-- The route to the lower half of all addresses, through a tunnel. -/
def lowerHalf : Route where
  iface := txt "tun0"
  destination := 0
  gateway := 0x0100080A
  flags := 3
  refcnt := 0
  use := 0
  metric := 0
  mask := 0x00000080
  mtu := 0
  window := 0
  irtt := 0
  iface_ne := by decide
  iface_short := by decide
  iface_plain := by decide

/-- A table that has no default route, from which a gateway is returned. -/
theorem getgatewayandiface_lowerHalf :
    getgatewayandiface (some (routeTable [lowerHalf])) = .ok (0x0100080A, txt "tun0") ∧
      ¬ lowerHalf.IsDefault := by
  refine ⟨?_, by decide⟩
  rw [getgatewayandiface_routeTable]
  rfl

end EDDTs.Beaglebone
