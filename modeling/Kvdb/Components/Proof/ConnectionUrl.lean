import Kvdb.Components.ConnectionUrl

/-!
# Which database a URL selects

For the network schemes `parse_url` writes the database of the path over the one of the query, and 0 if
there is no path, which then overrides the keyword; a path that is no number raises. `poolArgs_precedes_iff`
says when this makes no difference, and when another option of the query is lost to a part of the URL
or to the class of the connections.
-/

namespace Kvdb.ConnectionUrl

open Python

variable {β : Type} {R : Runtime β} {isAsync : Bool} {url : UrlArg} {u : KvdbUrl}
  {options kwargs args : Options β}

theorem get?_setPart (kwargs : Options β) (name k : String) (part : Option (Value β)) :
    (setPart kwargs name part).get? k =
      if k = name then part.or (kwargs.get? k) else kwargs.get? k := by
  unfold setPart
  cases part with
  | none => simp
  | some v => simp [Dict.get?_setItem]

theorem get?_ite_setItem {c : Prop} [Decidable c] (d : Options β) {k name : String} (v : Value β)
    (h : name ≠ k) : (if c then d.setItem k v else d).get? name = d.get? name := by
  split
  · rw [Dict.get?_setItem, if_neg h]
  · rfl

/-- The class of the connections, if the scheme has one of its own. -/
def schemeClass (isAsync : Bool) (u : KvdbUrl) : Option (Value β) :=
  if u.isUnix then some (.cls (.unixDomainSocket isAsync))
  else if u.isTls then some (.cls (.ssl isAsync))
  else none

/-- What the URL itself, or the keyword for the class, says of an option but the database. -/
def ownPart (isAsync : Bool) (u : KvdbUrl) (kwargs : Options β) (name : String) : Option (Value β) :=
  if name = "username" then textPart u.username
  else if name = "password" then textPart u.password
  else if name = "connection_class" then
    (kwargs.get? "connection_class").or (schemeClass isAsync u)
  else if u.isUnix then if name = "path" then textPart u.path else none
  else if name = "host" then textPart u.host
  else if name = "port" then portPart u.port
  else none

theorem dbId_eq (u : KvdbUrl) :
    u.dbId = if u.path = none then .ok 0 else u.pathNumber.elim (.error .valueError) .ok := by
  unfold KvdbUrl.dbId KvdbUrl.pathNumber
  cases u.path <;> simp

section Args

variable (hu : toUrl R url = .ok u) (ho : queryOptions R u.query = .ok options)

include hu ho

/-- The schemes of unix sockets: the database is the query's, or else the keyword's. -/
theorem poolArgs_unix (isAsync : Bool) (kwargs : Options β) (hunix : u.isUnix = true) :
    ∃ args, poolArgs R isAsync url kwargs = .ok args ∧ ∀ name, args.get? name =
      ((ownPart isAsync u kwargs name).or (options.get? name)).or (kwargs.get? name) := by
  unfold poolArgs parseUrl
  simp only [hu, ho, hunix, if_true, bind, Except.bind, pure, Except.pure]
  refine ⟨_, rfl, fun name => ?_⟩
  rw [Dict.get?_update]
  congr 1
  simp only [get?_setPart, Dict.get?_setItem, ownPart, schemeClass, hunix, if_true]
  by_cases h₁ : name = "connection_class"
  · subst h₁
    cases kwargs.get? "connection_class" <;> simp
  · by_cases h₂ : name = "username"
    · subst h₂
      simp
    · by_cases h₃ : name = "password"
      · subst h₃
        simp
      · by_cases h₄ : name = "path" <;> simp [h₁, h₂, h₃, h₄]

/-- The network schemes: the database is the path's. -/
theorem poolArgs_network (isAsync : Bool) (kwargs : Options β) (hunix : u.isUnix = false) {n : ℤ}
    (hn : u.dbId = .ok n) :
    ∃ args, poolArgs R isAsync url kwargs = .ok args ∧
      args.get? "db" = some (.int n) ∧ ∀ name, name ≠ "db" → args.get? name =
        ((ownPart isAsync u kwargs name).or (options.get? name)).or (kwargs.get? name) := by
  unfold poolArgs parseUrl
  simp only [hu, ho, hunix, Bool.false_eq_true, if_false, hn, bind, Except.bind, pure, Except.pure]
  refine ⟨_, rfl, ?_, fun name hdb => ?_⟩
  · rw [Dict.get?_update, get?_setPart, if_neg (by decide)]
    split <;> simp [Dict.get?_setItem]
  · rw [Dict.get?_update]
    congr 1
    rw [get?_setPart]
    by_cases h₁ : name = "connection_class"
    · subst h₁
      cases hc : kwargs.get? "connection_class" <;> cases ht : u.isTls <;>
        simp [ownPart, schemeClass, hunix, ht, hc, get?_setPart, Dict.get?_setItem]
    · rw [if_neg h₁, get?_ite_setItem _ _ h₁, Dict.get?_setItem, if_neg hdb]
      simp only [get?_setPart, ownPart, hunix, Bool.false_eq_true, if_false, if_neg h₁]
      by_cases h₂ : name = "username"
      · subst h₂
        simp
      · by_cases h₃ : name = "password"
        · subst h₃
          simp
        · by_cases h₄ : name = "host"
          · subst h₄
            simp
          · by_cases h₅ : name = "port" <;> simp [h₂, h₃, h₄, h₅]

/-- A path that is no number raises. -/
theorem poolArgs_raises (hunix : u.isUnix = false) {e : Fault} (he : u.dbId = .error e) :
    poolArgs R isAsync url kwargs = .error e := by
  unfold poolArgs parseUrl
  simp only [hu, ho, hunix, Bool.false_eq_true, if_false, he, bind, Except.bind]

end Args

/-! ## The precedence -/

/-- No other part of a URL speaks against its query: of the network schemes the path is absent or a
number, the database of the query is the one of the path, 0 without a path, and a keyword does not
select another one than 0 where the URL selects none; and no other option is what the URL says itself,
with another value. -/
structure Unambiguous (isAsync : Bool) (u : KvdbUrl) (options kwargs : Options β) : Prop where
  path : u.isUnix = false → u.path = none ∨ u.pathNumber ≠ none
  query : u.isUnix = false → ∀ v, options.get? "db" = some v → v = .int (u.pathNumber.getD 0)
  keyword : u.isUnix = false → u.path = none → options.get? "db" = none →
    ∀ v, kwargs.get? "db" = some v → v = .int 0
  others : ∀ name v w, name ≠ "db" → options.get? name = some v →
    ownPart isAsync u kwargs name = some w → w = v

/-- The options but the database, for both kinds of schemes. -/
theorem others_iff (hargs : ∀ name, name ≠ "db" → args.get? name =
      ((ownPart isAsync u kwargs name).or (options.get? name)).or (kwargs.get? name)) :
    (∀ name v, name ≠ "db" → options.get? name = some v → args.get? name = some v) ↔
      ∀ name v w, name ≠ "db" → options.get? name = some v →
        ownPart isAsync u kwargs name = some w → w = v := by
  refine forall₂_congr fun name v => ?_
  constructor
  · intro h w hdb hv hw
    have hname := h hdb hv
    rw [hargs name hdb, hw, hv] at hname
    exact Option.some.inj hname
  · intro h hdb hv
    rw [hargs name hdb, hv]
    cases hw : ownPart isAsync u kwargs name with
    | none => rfl
    | some w =>
      obtain rfl := h w hdb hv hw
      rfl

theorem ownPart_db : ownPart isAsync u kwargs "db" = none := by
  simp [ownPart]

/-- The database that the network schemes select is the one that is expected. -/
theorem network_db_iff (options kwargs : Options β) (hunix : u.isUnix = false) {n : ℤ}
    (hn : u.dbId = .ok n) :
    .int n = expectedDb u options kwargs ↔
      (∀ v, options.get? "db" = some v → v = .int (u.pathNumber.getD 0)) ∧
        (u.path = none → options.get? "db" = none → ∀ v, kwargs.get? "db" = some v → v = .int 0) := by
  unfold expectedDb
  rw [dbId_eq] at hn
  rw [if_neg (by rw [hunix]; decide)]
  by_cases hp : u.path = none
  · have hnum : u.pathNumber = none := by rw [KvdbUrl.pathNumber, hp]; rfl
    rw [if_pos hp] at hn
    obtain rfl : 0 = n := Except.ok.inj hn
    cases options.get? "db" <;> cases kwargs.get? "db" <;> simp [hnum, hp, eq_comm]
  · rw [if_neg hp] at hn
    cases hnum : u.pathNumber with
    | none =>
      rw [hnum] at hn
      cases hn
    | some m =>
      rw [hnum] at hn
      obtain rfl : m = n := Except.ok.inj hn
      cases options.get? "db" <;> simp [hp, eq_comm]

/-- **Precedence**: the arguments of the pool are those that are expected exactly if no part of the URL
speaks against its query. -/
theorem poolArgs_precedes_iff (hu : toUrl R url = .ok u)
    (ho : queryOptions R u.query = .ok options) :
    (∃ args, poolArgs R isAsync url kwargs = .ok args ∧ Precedes u options kwargs args) ↔
      Unambiguous isAsync u options kwargs := by
  cases hunix : u.isUnix with
  | true =>
    obtain ⟨args, hargs, hget⟩ := poolArgs_unix hu ho isAsync kwargs hunix
    have hdb : (args.get? "db").getD (.int 0) = expectedDb u options kwargs := by
      rw [hget, ownPart_db, expectedDb, if_pos hunix, Option.none_or, Option.or_none]
    have hothers := others_iff fun name _ => hget name
    constructor
    · intro h
      obtain ⟨args', hargs', -, ho⟩ := h
      obtain rfl := Except.ok.inj (hargs.symm.trans hargs')
      exact ⟨fun h => by simp [hunix] at h, fun h => by simp [hunix] at h,
        fun h => by simp [hunix] at h, hothers.1 ho⟩
    · exact fun h => ⟨args, hargs, hdb, hothers.2 h.others⟩
  | false =>
    cases hn : u.dbId with
    | error e =>
      have hpath : ¬ (u.path = none ∨ u.pathNumber ≠ none) := by
        rw [dbId_eq] at hn
        intro h
        split at hn
        · cases hn
        · rename_i hp
          obtain ⟨n, hnum⟩ := Option.ne_none_iff_exists'.1 (h.resolve_left hp)
          rw [hnum] at hn
          cases hn
      refine iff_of_false ?_ fun h => hpath (h.path hunix)
      intro h
      obtain ⟨args, hargs, -⟩ := h
      rw [poolArgs_raises hu ho hunix hn] at hargs
      cases hargs
    | ok n =>
      have hpath : u.path = none ∨ u.pathNumber ≠ none := by
        rw [dbId_eq] at hn
        split at hn
        · rename_i hp
          exact .inl hp
        · refine .inr fun hnum => ?_
          rw [hnum] at hn
          cases hn
      obtain ⟨args, hargs, hdb, hget⟩ := poolArgs_network hu ho isAsync kwargs hunix hn
      have hothers := others_iff hget
      have hsel := network_db_iff options kwargs hunix hn
      constructor
      · intro h
        obtain ⟨args', hargs', hd, ho⟩ := h
        obtain rfl := Except.ok.inj (hargs.symm.trans hargs')
        rw [hdb] at hd
        obtain ⟨hq, hk⟩ := hsel.1 hd
        exact ⟨fun _ => hpath, fun _ => hq, fun _ => hk, hothers.1 ho⟩
      · intro h
        refine ⟨args, hargs, ?_, hothers.2 h.others⟩
        rw [hdb]
        exact hsel.2 ⟨h.query hunix, h.keyword hunix⟩

/-- A pool has the arguments it is built from. -/
structure Pool.BuiltFrom (isAsync : Bool) (args : Options β) (pool : Pool β) : Prop where
  db : pool.db = (args.get? "db").getD (.int 0)
  connectionClass : .cls pool.connectionClass =
    (args.get? "connection_class").getD (.cls (.connection isAsync))
  maxConnections : maxConnectionsOr (args.get? "max_connections") = .ok pool.maxConnections
  others : ∀ name, name ≠ "connection_class" → name ≠ "max_connections" →
    (pool.connectionKwargs.get? name).or (pool.extraKwargs.get? name) = args.get? name

theorem builtFrom_of_init {pool : Pool β} (h : Pool.init R isAsync args = .ok pool) :
    pool.BuiltFrom isAsync args := by
  unfold Pool.init at h
  cases hself : (args.get? "self").isSome with
  | true =>
    rw [hself] at h
    cases h
  | false =>
    rw [hself] at h
    cases hmax : maxConnectionsOr (args.get? "max_connections") with
    | error e =>
      rw [hmax] at h
      cases h
    | ok n =>
      rw [hmax] at h
      cases hc : (args.get? "connection_class").getD (.cls (.connection isAsync)) with
      | none | int _ | text _ | object _ =>
        rw [hc] at h
        cases h
      | cls c =>
        rw [hc] at h
        cases h
        have hconn : ∀ (q : String → Bool) name, ((args.filter fun p => p.1 ≠ "connection_class" ∧
            p.1 ≠ "max_connections").filter fun p => q p.1).get? name =
              if q name then
                if name ≠ "connection_class" ∧ name ≠ "max_connections" then args.get? name else none
              else none := fun q name => by
          rw [Dict.get?_filter_key _ q, Dict.get?_filter_key _ fun k =>
            decide (k ≠ "connection_class" ∧ k ≠ "max_connections")]
          simp only [decide_eq_true_eq]
        refine ⟨?_, hc.symm, hmax, fun name h₁ h₂ => ?_⟩
        · show (Dict.get? _ "db").getD _ = _
          rw [hconn (R.accepts c), if_pos (R.accepts_db c), if_pos (by decide)]
        · show (Dict.get? _ name).or (Dict.get? _ name) = _
          have hname : name ≠ "connection_class" ∧ name ≠ "max_connections" := ⟨h₁, h₂⟩
          rw [hconn (R.accepts c), hconn fun k => !R.accepts c k]
          simp only [if_pos hname]
          cases R.accepts c name <;> simp

/-- What `from_url` makes of a URL. -/
theorem fromUrl_precedes_iff (hu : toUrl R url = .ok u)
    (ho : queryOptions R u.query = .ok options) :
    ((∃ args, poolArgs R isAsync url kwargs = .ok args ∧ Precedes u options kwargs args) ↔
        Unambiguous isAsync u options kwargs) ∧
      ∀ pool, fromUrl R isAsync url kwargs = .ok pool →
        ∃ args, poolArgs R isAsync url kwargs = .ok args ∧ pool.BuiltFrom isAsync args := by
  refine ⟨poolArgs_precedes_iff hu ho, fun pool hpool => ?_⟩
  unfold fromUrl at hpool
  cases hargs : poolArgs R isAsync url kwargs with
  | error e =>
    rw [hargs] at hpool
    cases hpool
  | ok args =>
    rw [hargs] at hpool
    exact ⟨args, rfl, builtFrom_of_init hpool⟩

/-- `int` for the database, and no other parser. -/
def plainRuntime : Runtime ℕ where
  kvdbUrl _ := none
  parsers name := if name = "db" then some fun s => (pyInt s.toList).map .int else none
  accepts _ _ := true
  accepts_db _ := rfl

/-- `redis://localhost/1` with a keyword selects the database 1. -/
theorem fromUrl_precedes_path :
    ∃ args, poolArgs plainRuntime false
        (.url { scheme := "redis", host := some "localhost", path := some "/1" })
        (Dict.ofPairs [("db", .int 3)]) = .ok args ∧
      Precedes { scheme := "redis", host := some "localhost", path := some "/1" } {}
        (Dict.ofPairs [("db", .int 3)]) args := by
  refine (fromUrl_precedes_iff rfl rfl).1.2 ⟨fun _ => .inr (by decide), ?_, ?_, ?_⟩
  · intro _ v hv
    cases hv
  · intro _ hp
    cases hp
  · intro name v w _ hv
    cases hv

/-- `redis://localhost/1?db=2` selects the database 1, and `redis://localhost` with the keyword
`db = 3` the database 0. -/
theorem precedes_broken :
    (∃ options args, queryOptions plainRuntime (some "db=2") = .ok options ∧
      poolArgs plainRuntime false
        (.url { scheme := "redis", host := some "localhost", path := some "/1", query := some "db=2" })
        {} = .ok args ∧
      ¬ Precedes
        { scheme := "redis", host := some "localhost", path := some "/1", query := some "db=2" }
        options {} args) ∧
    ∃ args, poolArgs plainRuntime false (.url { scheme := "redis", host := some "localhost" })
        (Dict.ofPairs [("db", .int 3)]) = .ok args ∧
      ¬ Precedes { scheme := "redis", host := some "localhost" } {}
        (Dict.ofPairs [("db", .int 3)]) args := by
  constructor
  · refine ⟨_, _, rfl, rfl, fun h => ?_⟩
    have hdb := h.db
    revert hdb
    decide
  · refine ⟨_, rfl, fun h => ?_⟩
    have hdb := h.db
    revert hdb
    decide

end Kvdb.ConnectionUrl
