import EntityGraph.Config
import EntityGraph.Database.Store
import EntityGraph.Database.Target
import EntityGraph.Entity.Query
import EntityGraph.Equality
import EntityGraph.Graph.Batch
import EntityGraph.Graph.Delete
import EntityGraph.Graph.Handle
import EntityGraph.Graph.Query
import EntityGraph.Graph.Update
import EntityGraph.Sample.Entities
import EntityGraph.Script
import EntityGraph.Serial.Step
import EntityGraph.Proofs.Program.Scripted
import EntityGraph.Proofs.Transaction.Atomicity
import EntityGraph.Proofs.Graph.OneToOneUpdates
import EntityGraph.Proofs.Sql.Meaning
import EntityGraph.Proofs.Sql.Content
import EntityGraph.Proofs.Sql.Skeleton
import EntityGraph.Proofs.Relational.Insertion
import EntityGraph.Proofs.Relational.NamedColumns
import EntityGraph.Proofs.Graph.NeighborSteps
import EntityGraph.Proofs.Graph.JoinTablePairs
import EntityGraph.Proofs.Graph.JoinTableUpdates
import EntityGraph.Proofs.Graph.EdgesReadBack
import EntityGraph.Proofs.Graph.EagerLoading
import EntityGraph.Proofs.Graph.StepConditions
import EntityGraph.Proofs.Graph.ReferenceOrder
import EntityGraph.Proofs.Graph.StableOrder
import EntityGraph.Proofs.Graph.CreationTurns
import EntityGraph.Proofs.Graph.ChainRuns
import EntityGraph.Proofs.Relational.References
import EntityGraph.Proofs.Graph.OneToOneCreations
import EntityGraph.Proofs.Graph.PartnerClaims
import EntityGraph.Proofs.Graph.BulkInserts
import EntityGraph.Proofs.Graph.OneToOneBatches
import EntityGraph.Proofs.Graph.OneToOneKept
import EntityGraph.Proofs.Program.Ensured
import EntityGraph.Proofs.Relational.Performed
import EntityGraph.Proofs.Relational.StoredRows
import EntityGraph.Proofs.Graph.LinkedRows
import EntityGraph.Proofs.Graph.JoinTableRows
import EntityGraph.Proofs.Graph.SuppliedCreations
import EntityGraph.Proofs.Graph.SuppliedRows
import EntityGraph.Proofs.Graph.BulkCreation
import EntityGraph.Proofs.Graph.BatchAgreement
import EntityGraph.Proofs.Transaction.Provenance
import EntityGraph.Proofs.Transaction.Leftovers
import EntityGraph.Proofs.Entity.Refinement
import EntityGraph.Proofs.Graph.StoredForms
import EntityGraph.Proofs.Graph.NeighborhoodRuns
import EntityGraph.Proofs.Graph.AddedEdges
import EntityGraph.Proofs.Graph.FirstWriter
import EntityGraph.Proofs.Graph.UpsertedIds
import EntityGraph.Proofs.Graph.CompleteStatements
import EntityGraph.Proofs.Graph.CountedRows
import EntityGraph.Proofs.Graph.ExistingRows
import EntityGraph.Proofs.Graph.MatchedRows
import EntityGraph.Proofs.Graph.AttributedIds
import EntityGraph.Proofs.Graph.ListedPartners
import EntityGraph.Proofs.Graph.JoinTableColumns
import EntityGraph.Proofs.Graph.RemovedEdges
import EntityGraph.Proofs.Graph.UpsertedPartners
import EntityGraph.Proofs.Graph.SkippedCreations
import EntityGraph.Proofs.Graph.BatchPolicies
import EntityGraph.Proofs.Graph.ColumnsNamedOnce
import EntityGraph.Proofs.Sql.ConflictEffects
import EntityGraph.Proofs.Graph.DistinctOrders
import EntityGraph.Proofs.Graph.StepNames
import EntityGraph.Proofs.Sql.LikePatterns
import EntityGraph.Proofs.Value.StoredValues
import EntityGraph.Proofs.Time.WrittenTimes
import EntityGraph.Proofs.Graph.MissingNodes
import EntityGraph.Proofs.Graph.AbsentKeys
