import ListQuery.Main
import ListQuery.Proofs.Client.Endpoint
import ListQuery.Proofs.Client.Settings
import ListQuery.Proofs.Command
import ListQuery.Proofs.Containers
import ListQuery.Proofs.Filter.Explicit
import ListQuery.Proofs.Filter.Shape
import ListQuery.Proofs.Listing
import ListQuery.Proofs.Relation.Limits
import ListQuery.Proofs.Relation.Parsed
import ListQuery.Proofs.Relation.Paths
import ListQuery.Proofs.Relation.Running
import ListQuery.Proofs.Relation.Sendable
import ListQuery.Proofs.Relation.Viable
import ListQuery.Proofs.Request.Distinction
import ListQuery.Proofs.Request.Order
import ListQuery.Proofs.Request.Refusal
