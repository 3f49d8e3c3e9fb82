import SlotCluster.Command

/-!
# The command table

What the client knows about commands by their upper case names: where a command's keys stand,
which nodes answer it, how several answers become one, whether a replica may serve it, and
whether a cluster serves it at all. The name of a container command has two words, such as
`CONFIG GET`.
-/

namespace SlotCluster

/-! ## Families -/

/-- Commands of one family have their keys in the same places, or are keyless in the same way. -/
inductive Family
  | allNodes
  | allMasters
  /-- `CMD key ...` -/
  | firstKey
  /-- `CMD key [key ...]` -/
  | allArgs
  /-- `BITOP op destkey key [key ...]` -/
  | allFromSecond
  /-- `BLPOP key [key ...] timeout` -/
  | allButLast
  /-- `RENAME key newkey` -/
  | firstTwo
  /-- `MSET key value [key value ...]` -/
  | keyValuePairs
  /-- `XINFO GROUPS key` -/
  | second
  /-- `ZUNION numkeys key [key ...]` -/
  | countedFirst
  /-- `EVAL script numkeys key [key ...]` -/
  | countedSecond
  /-- `ZUNIONSTORE destination numkeys key [key ...]` -/
  | destinationCounted
  /-- `XREAD ... STREAMS key [key ...] id [id ...]` -/
  | streams
  /-- Keyless. Any node may answer. -/
  | anyNode
  /-- `CLUSTER SETSLOT slot ...` -/
  | slotArgument
  deriving DecidableEq, Repr

/-! ## Merge policies -/

inductive NumberRule
  | min
  | sum
  | max
  deriving DecidableEq, Repr

inductive LogicRule
  | and
  | or
  deriving DecidableEq, Repr

/-- How the answers of several nodes become one. -/
inductive MergePolicy
  /-- The first success, or the last failure. -/
  | oneSucceeded
  /-- The first success that is not nil. Nil if every node answered nil, or the last failure. -/
  | firstNonEmpty
  /-- All have to succeed. The first answer stands for all. -/
  | allSucceeded
  /-- All have to succeed with the same answer. -/
  | allEqual
  | logical (rule : LogicRule)
  | number (rule : NumberRule)
  /-- The elements of all arrays, one after the other. -/
  | combineArrays
  deriving DecidableEq, Repr

namespace CommandTable

def names (ns : List String) : List Bytes := ns.map Bytes.ofText

/-! ## Names of two words -/

/-- Commands whose second word belongs to the name. -/
def containers : List Bytes :=
  names ["XGROUP", "OBJECT", "SLOWLOG", "FUNCTION", "MODULE", "COMMAND", "PUBSUB", "CONFIG",
    "MEMORY", "XINFO", "CLIENT", "SCRIPT", "CLUSTER", "LATENCY"]

/-! ## Families -/

def allNodesNames : List Bytes :=
  names ["CLIENT SETINFO", "SLOWLOG GET", "SLOWLOG LEN", "SLOWLOG RESET", "CONFIG SET",
    "CONFIG RESETSTAT", "CONFIG REWRITE", "SCRIPT FLUSH", "SCRIPT LOAD", "LATENCY RESET",
    "LATENCY DOCTOR", "LATENCY LATEST", "PUBSUB NUMPAT", "PUBSUB CHANNELS",
    "PUBSUB SHARDCHANNELS", "FUNCTION KILL", "FUNCTION STATS", "SHUTDOWN"]

def allMastersNames : List Bytes :=
  names ["DBSIZE", "FLUSHALL", "FLUSHDB", "FUNCTION DELETE", "FUNCTION FLUSH", "FUNCTION LOAD",
    "FUNCTION RESTORE", "INFO", "KEYS", "LASTSAVE", "MEMORY DOCTOR", "MEMORY MALLOC-STATS",
    "MEMORY PURGE", "MEMORY STATS", "PING", "SCAN", "SCRIPT EXISTS", "UNWATCH", "WAIT",
    "RANDOMKEY"]

def allArgsNames : List Bytes :=
  names ["MGET", "DEL", "EXISTS", "UNLINK", "TOUCH", "WATCH", "SINTER", "SUNION", "SDIFF",
    "SINTERSTORE", "SUNIONSTORE", "SDIFFSTORE", "PFCOUNT", "PFMERGE"]

def allButLastNames : List Bytes := names ["BLPOP", "BRPOP", "BZPOPMIN", "BZPOPMAX"]

def firstTwoNames : List Bytes :=
  names ["RENAME", "RENAMENX", "SMOVE", "LMOVE", "BLMOVE", "RPOPLPUSH", "BRPOPLPUSH", "COPY",
    "LCS", "GEOSEARCHSTORE", "ZRANGESTORE"]

def keyValueNames : List Bytes := names ["MSET", "MSETNX"]

def allFromSecondNames : List Bytes := names ["BITOP"]

def countedSecondNames : List Bytes :=
  names ["BLMPOP", "BZMPOP", "EVAL", "EVALSHA", "EVALSHA_RO", "EVAL_RO", "FCALL", "FCALL_RO"]

def secondNames : List Bytes :=
  names ["MEMORY USAGE", "XGROUP CREATE", "XGROUP CREATECONSUMER", "XGROUP DELCONSUMER",
    "XGROUP DESTROY", "XGROUP SETID", "XINFO CONSUMERS", "XINFO GROUPS", "XINFO STREAM",
    "OBJECT ENCODING", "OBJECT FREQ", "OBJECT IDLETIME", "OBJECT REFCOUNT"]

def countedFirstNames : List Bytes :=
  names ["LMPOP", "SINTERCARD", "ZDIFF", "ZINTER", "ZINTERCARD", "ZMPOP", "ZUNION"]

def destinationCountedNames : List Bytes :=
  names ["ZUNIONSTORE", "ZINTERSTORE", "ZDIFFSTORE"]

def streamsNames : List Bytes := names ["XREAD", "XREADGROUP"]

/-- Keyless commands whose arguments look like keys. -/
def anyNodeNames : List Bytes :=
  names ["AUTH", "BGSAVE", "BGREWRITEAOF", "CLIENT GETNAME", "CLIENT ID", "CLIENT INFO",
    "CLIENT LIST", "CLUSTER COUNT-FAILURE-REPORTS", "CLUSTER INFO", "CLUSTER KEYSLOT",
    "CLUSTER MYID", "CLUSTER NODES", "CLUSTER REPLICAS", "CLUSTER SHARDS", "CLUSTER SLOTS",
    "COMMAND COUNT", "COMMAND GETKEYS", "COMMAND LIST", "COMMAND", "CONFIG GET", "ECHO",
    "FUNCTION LIST", "LOLWUT", "READONLY", "READWRITE", "SAVE", "SCRIPT SHOW", "TIME"]

def slotArgumentNames : List Bytes :=
  names ["CLUSTER ADDSLOTS", "CLUSTER COUNTKEYSINSLOT", "CLUSTER DELSLOTS",
    "CLUSTER GETKEYSINSLOT", "CLUSTER SETSLOT"]

/-- The families and the names that belong to them. No name is in two. -/
def families : List (Family × List Bytes) :=
  [(.allNodes, allNodesNames), (.allMasters, allMastersNames), (.allArgs, allArgsNames),
   (.allButLast, allButLastNames), (.firstTwo, firstTwoNames), (.keyValuePairs, keyValueNames),
   (.allFromSecond, allFromSecondNames), (.countedSecond, countedSecondNames),
   (.second, secondNames), (.countedFirst, countedFirstNames),
   (.destinationCounted, destinationCountedNames), (.streams, streamsNames),
   (.anyNode, anyNodeNames), (.slotArgument, slotArgumentNames)]

/-- A command that is in no list has its key as first argument. -/
def familyOf (name : Bytes) : Family :=
  ((families.find? fun (_, ns) => ns.contains name).map Prod.fst).getD .firstKey

/-! ## Refused commands -/

/-- Commands that a cluster cannot serve. -/
def blocked : List Bytes :=
  names ["MOVE", "SELECT", "SWAPDB", "SLAVEOF", "REPLICAOF", "SENTINEL", "MIGRATE", "MONITOR",
    "MULTI", "EXEC", "DISCARD", "SUBSCRIBE", "PSUBSCRIBE", "SSUBSCRIBE", "UNSUBSCRIBE",
    "PUNSUBSCRIBE", "SUNSUBSCRIBE", "SCRIPT KILL", "CLIENT SETNAME"]

def isBlocked (name : Bytes) : Bool := blocked.contains name

/-! ## Reads -/

/-- Commands that a replica may serve. -/
def readOnly : List Bytes :=
  names ["BITCOUNT", "BITPOS", "DUMP", "EVALSHA_RO", "EVAL_RO", "EXISTS", "EXPIRETIME",
    "FCALL_RO", "GEODIST", "GEOHASH", "GEOPOS", "GEOSEARCH", "GET", "GETBIT", "GETRANGE",
    "HEXISTS", "HGET", "HGETALL", "HKEYS", "HLEN", "HMGET", "HRANDFIELD", "HSCAN", "HSTRLEN",
    "HVALS", "LCS", "LINDEX", "LLEN", "LPOS", "LRANGE", "MEMORY USAGE", "MGET",
    "OBJECT ENCODING", "OBJECT FREQ", "OBJECT IDLETIME", "OBJECT REFCOUNT", "PEXPIRETIME",
    "PFCOUNT", "PTTL", "SCARD", "SDIFF", "SINTER", "SINTERCARD", "SISMEMBER", "SMEMBERS",
    "SMISMEMBER", "SORT_RO", "SRANDMEMBER", "SSCAN", "STRLEN", "SUNION", "TOUCH", "TTL", "TYPE",
    "XINFO CONSUMERS", "XINFO GROUPS", "XINFO STREAM", "XLEN", "XPENDING", "XRANGE", "XREAD",
    "XREVRANGE", "ZCARD", "ZCOUNT", "ZDIFF", "ZINTER", "ZINTERCARD", "ZLEXCOUNT", "ZMSCORE",
    "ZRANDMEMBER", "ZRANGE", "ZRANGEBYLEX", "ZRANGEBYSCORE", "ZRANK", "ZREVRANGE",
    "ZREVRANGEBYLEX", "ZREVRANGEBYSCORE", "ZREVRANK", "ZSCAN", "ZSCORE", "ZUNION"]

def isReadOnly (name : Bytes) : Bool := readOnly.contains name

/-! ## Merging -/

def policies : List (MergePolicy × List Bytes) :=
  [(.logical .and, names ["SCRIPT EXISTS"]),
   (.number .sum, names ["DBSIZE", "SLOWLOG LEN", "LATENCY RESET", "PUBSUB NUMPAT"]),
   (.number .min, names ["WAIT"]),
   (.number .max, names ["LASTSAVE"]),
   (.allSucceeded, names ["CLIENT SETINFO", "CONFIG SET", "CONFIG RESETSTAT", "CONFIG REWRITE",
     "FLUSHALL", "FLUSHDB", "FUNCTION DELETE", "FUNCTION FLUSH", "FUNCTION RESTORE",
     "MEMORY PURGE", "PING", "SCRIPT FLUSH", "SLOWLOG RESET", "UNWATCH", "SHUTDOWN"]),
   (.allEqual, names ["SCRIPT LOAD", "FUNCTION LOAD"]),
   (.combineArrays, names ["KEYS", "SLOWLOG GET", "PUBSUB CHANNELS", "PUBSUB SHARDCHANNELS"]),
   (.oneSucceeded, names ["FUNCTION KILL"]),
   (.firstNonEmpty, names ["RANDOMKEY"])]

/-- No policy means that the answers are handed out one by one. -/
def policyOf? (name : Bytes) : Option MergePolicy :=
  (policies.find? fun (_, ns) => ns.contains name).map Prod.fst

end CommandTable

end SlotCluster
