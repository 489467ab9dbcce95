import WireSchema.Plan.Build

/-!
Sample messages, one for each feature of schemas: a single field, defaults, arrays, records in
records, integers alone, records that contain themselves, and records named after library types.
-/

namespace WireSchema.Samples

def plain (name typeText versions : String) : Field :=
  { name := name, typeText := typeText, versions := versions }

def foo : Message where
  category := "request"
  name := "Foo"
  validVersions := "0"
  flexibleVersions := ""
  fields := [plain "x" "int32" "0+"]
  commonRecords := []

def defaultsRequest : Message where
  category := "request"
  name := "DefaultsRequest"
  validVersions := "0-3"
  flexibleVersions := "none"
  fields :=
    [{ name := "y"
       typeText := "string"
       versions := "1"
       about := some "Only on the wire in version 1."
       default := .string "abc" },
     { name := "n", typeText := "int16", versions := "2+", default := .int (-7) },
     plain "window" "int64" "1-2",
     plain "tail" "int8" "0+"]
  commonRecords := []

def arraysResponse : Message where
  category := "response"
  name := "ArraysResponse"
  validVersions := "0-1"
  flexibleVersions := ""
  fields :=
    [plain "ids" "[]int32" "0+",
     plain "names" "[]string" "0+",
     plain "blobs" "[]bytes" "1+",
     plain "id" "uuid" "0+",
     plain "data" "bytes" "0+"]
  commonRecords := []

def fetchRequest : Message where
  category := "request"
  name := "FetchRequest"
  validVersions := "0-13"
  flexibleVersions := "12+"
  fields :=
    [plain "replicaId" "int32" "0+",
     { name := "topics"
       typeText := "[]FetchTopic"
       versions := "0+"
       fields :=
         [plain "topic" "string" "0-12",
          plain "topicId" "uuid" "13+",
          { name := "partitions"
            typeText := "[]FetchPartition"
            versions := "0+"
            fields :=
              [plain "partition" "int32" "0+",
               { name := "epoch", typeText := "int32", versions := "9+", default := .int (-1) },
               plain "leader" "LeaderInfo" "0+"] }] }]
  commonRecords :=
    [{ name := "LeaderInfo"
       versions := "0+"
       fields := [plain "leaderId" "int32" "0+", plain "leaderEpoch" "int64" "0+"] }]

def intsOnly : Message where
  category := "header"
  name := "IntsOnly"
  validVersions := ""
  flexibleVersions := ""
  fields := [plain "a" "int8" "0+", plain "b" "int16" "1-3", plain "c" "int64" "2"]
  commonRecords := []

def treeResponse : Message where
  category := "response"
  name := "TreeResponse"
  validVersions := "0-1"
  flexibleVersions := ""
  fields := [plain "root" "Node" "0+"]
  commonRecords :=
    [{ name := "Node"
       versions := "0+"
       fields := [plain "value" "int8" "0+", plain "children" "[]Node" "0+"] }]

def shadowingRequest : Message where
  category := "request"
  name := "ShadowingRequest"
  validVersions := "0"
  flexibleVersions := ""
  fields :=
    [plain "result" "Result" "0+",
     plain "label" "string" "0+",
     plain "tag" "String" "0+",
     plain "items" "[]Vec" "0+"]
  commonRecords :=
    [{ name := "Result", versions := "0+", fields := [plain "code" "int16" "0+"] },
     { name := "String", versions := "0+", fields := [plain "n" "int8" "0+"] },
     { name := "Vec", versions := "0+", fields := [plain "name" "string" "0+"] }]

def all : List Message :=
  [foo, defaultsRequest, arraysResponse, fetchRequest, intsOnly, treeResponse, shadowingRequest]

def recordOf? (decoder : String) (m : Message) : Option (UnitPlan × RecordPlan) :=
  match UnitPlan.build m with
  | .error _ => none
  | .ok plan =>
    (plan.records.find? fun r => r.decoder == decoder).map fun r => (plan, r)

end WireSchema.Samples
